import Mathlib.Logic.Function.Basic

/-!
# OcamlTemporal.Base.OrderedRegistry

The ordered registry (`lib/base/ordered_registry.ml`): a doubly linked list of registrations, whose
handles are its nodes. A node is named by the number of nodes that were made before it. The two
walks over the list take the number of nodes as fuel.

`Heap` are the registries of a program. The nodes of all of them are in one heap, and an operation
on a registry is the one on `Heap.get`: the heap with the endpoints of this registry.
-/

namespace OcamlTemporal

/-- One registration. `value` is gone once the node was unlinked. -/
structure OrderedRegistry.Node (α : Type) where
  value : Option α := none
  prev : Option Nat := none
  next : Option Nat := none
  linked : Bool := false

/-- The nodes that were made, the endpoints and the number of linked nodes. -/
structure OrderedRegistry (α : Type) where
  nodes : Nat → OrderedRegistry.Node α
  allocated : Nat
  first : Option Nat
  last : Option Nat
  length : Nat

namespace OrderedRegistry

variable {α : Type}

def setNext (nodes : Nat → OrderedRegistry.Node α) (node : Nat) (next : Option Nat) :
    Nat → Node α :=
  Function.update nodes node { nodes node with next }

def setPrev (nodes : Nat → OrderedRegistry.Node α) (node : Nat) (prev : Option Nat) :
    Nat → Node α :=
  Function.update nodes node { nodes node with prev }

def add (registry : OrderedRegistry α) (value : α) : OrderedRegistry α × Nat :=
  let node := registry.allocated
  let nodes := Function.update registry.nodes node
    { value := some value, prev := registry.last, next := none, linked := true }
  let (nodes, first) :=
    match registry.last with
    | none => (nodes, some node)
    | some last => (setNext nodes last (some node), registry.first)
  ({ nodes, allocated := node + 1, first, last := some node, length := registry.length + 1 }, node)

def detach (nodes : Nat → OrderedRegistry.Node α) (node : Nat) : Nat → Node α :=
  Function.update nodes node {}

def remove (registry : OrderedRegistry α) (node : Nat) : OrderedRegistry α :=
  let { prev, next, linked, .. } := registry.nodes node
  if linked then
    let (nodes, first) :=
      match prev with
      | none => (registry.nodes, next)
      | some prev => (setNext registry.nodes prev next, registry.first)
    let (nodes, last) :=
      match next with
      | none => (nodes, prev)
      | some next => (setPrev nodes next prev, registry.last)
    { registry with
      nodes := detach nodes node, first, last, length := registry.length - 1 }
  else registry

/-- The walk from the newest node to the oldest. -/
def collect (nodes : Nat → OrderedRegistry.Node α) : Nat → List α → Option Nat → List α
  | 0, acc, _ => acc
  | _, acc, none => acc
  | fuel + 1, acc, some node =>
    collect nodes fuel
      (match (nodes node).value with
        | some value => value :: acc
        | none => acc)
      (nodes node).prev

def toList (registry : OrderedRegistry α) : List α :=
  collect registry.nodes registry.allocated [] registry.last

/-- The walk from the oldest node to the newest. -/
def detachAll : Nat → (Nat → Node α) → Option Nat → Nat → Node α
  | 0, nodes, _ => nodes
  | _, nodes, none => nodes
  | fuel + 1, nodes, some node => detachAll fuel (detach nodes node) (nodes node).next

def takeAll (registry : OrderedRegistry α) : List α × OrderedRegistry α :=
  (registry.toList,
    { registry with
      nodes := detachAll registry.allocated registry.nodes registry.first
      first := none, last := none, length := 0 })

/-- Any number of registries. `registry` is the field of a node that names the registry it was made
by. -/
structure Heap (α : Type) where
  nodes : Nat → Node α
  registry : Nat → Nat
  allocated : Nat
  first : Nat → Option Nat
  last : Nat → Option Nat
  length : Nat → Nat

namespace Heap

def empty : Heap α where
  nodes _ := {}
  registry _ := 0
  allocated := 0
  first _ := none
  last _ := none
  length _ := 0

def get (heap : Heap α) (k : Nat) : OrderedRegistry α :=
  ⟨heap.nodes, heap.allocated, heap.first k, heap.last k, heap.length k⟩

def set (heap : Heap α) (k : Nat) (registry : OrderedRegistry α) : Heap α :=
  { heap with
    nodes := registry.nodes
    allocated := registry.allocated
    first := Function.update heap.first k registry.first
    last := Function.update heap.last k registry.last
    length := Function.update heap.length k registry.length }

def add (heap : Heap α) (k : Nat) (value : α) : Heap α × Nat :=
  let (registry, node) := (heap.get k).add value
  ({ heap.set k registry with registry := Function.update heap.registry node k }, node)

def remove (heap : Heap α) (node : Nat) : Heap α :=
  heap.set (heap.registry node) ((heap.get (heap.registry node)).remove node)

def toList (heap : Heap α) (k : Nat) : List α := (heap.get k).toList

def takeAll (heap : Heap α) (k : Nat) : List α × Heap α :=
  let (values, registry) := (heap.get k).takeAll
  (values, heap.set k registry)

def clear (heap : Heap α) (k : Nat) : Heap α := (heap.takeAll k).2

end Heap

inductive Op (α : Type)
  | add (k : Nat) (value : α)
  | remove (node : Nat)
  | takeAll (k : Nat)
  | clear (k : Nat)
  | toList (k : Nat)

inductive Reply (α : Type)
  | handle (node : Nat)
  | values (l : List α)
  | unit
  deriving DecidableEq

def Heap.call (heap : Heap α) : Op α → Heap α × Reply α
  | .add k value => ((heap.add k value).1, .handle (heap.add k value).2)
  | .remove node => (heap.remove node, .unit)
  | .takeAll k => ((heap.takeAll k).2, .values (heap.takeAll k).1)
  | .clear k => (heap.clear k, .unit)
  | .toList k => (heap, .values (heap.toList k))

def Heap.run (heap : Heap α) : List (Op α) → Heap α × List (Reply α)
  | [] => (heap, [])
  | op :: ops =>
    let (heap, reply) := heap.call op
    ((heap.run ops).1, reply :: (heap.run ops).2)

end OrderedRegistry

end OcamlTemporal
