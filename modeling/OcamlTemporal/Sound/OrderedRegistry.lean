import Mathlib.Data.List.Induction
import Mathlib.Data.List.Perm.Subperm
import OcamlTemporal.Base.OrderedRegistry

/-!
# OcamlTemporal.Sound.OrderedRegistry

The ordered registry is a list. `Chain r l` says that the linked nodes of `r` are those of `l` in
this order, each with its neighbours; every operation is then the one on lists.

Registries that share a heap do not meet. `Heap.view` masks the nodes of the other registries, and
`Heap.Holds` has a chain in every view; **`Lists`** is what a program sees of its registries.
-/

namespace OcamlTemporal.OrderedRegistry

variable {α : Type}

/-- The nodes of `l` are linked in this order, between `prev` and `next`. -/
def Linked (nodes : Nat → Node α) : Option Nat → List (Nat × α) → Option Nat → Prop
  | _, [], _ => True
  | prev, (node, value) :: rest, next =>
    nodes node = ⟨some value, prev, (rest.head?.map Prod.fst).or next, true⟩ ∧
      Linked nodes (some node) rest next

/-- The registry holds the registrations of `l`, oldest first. -/
structure Chain (r : OrderedRegistry α) (l : List (Nat × α)) : Prop where
  linked : Linked r.nodes none l none
  first : r.first = l.head?.map Prod.fst
  last : r.last = l.getLast?.map Prod.fst
  length : r.length = l.length
  nodup : (l.map Prod.fst).Nodup
  bounded : ∀ node ∈ l.map Prod.fst, node < r.allocated
  others : ∀ node, node ∉ l.map Prod.fst → (r.nodes node).linked = false

section Linked

variable {nodes nodes' : Nat → Node α} {prev next : Option Nat} {l l' : List (Nat × α)}

theorem linked_append :
    Linked nodes prev (l ++ l') next ↔
      Linked nodes prev l ((l'.head?.map Prod.fst).or next) ∧
        Linked nodes ((l.getLast?.map Prod.fst).or prev) l' next := by
  induction l generalizing prev with
  | nil => simp [Linked]
  | cons p l ih =>
    obtain ⟨node, value⟩ := p
    have hhead : ((l ++ l').head?.map Prod.fst).or next =
        (l.head?.map Prod.fst).or ((l'.head?.map Prod.fst).or next) := by
      cases l <;> simp
    have hlast : (((node, value) :: l).getLast?.map Prod.fst).or prev =
        (l.getLast?.map Prod.fst).or (some node) := by
      rw [List.getLast?_cons]
      cases l.getLast? <;> simp
    rw [List.cons_append, Linked, Linked, ih, hhead, hlast, and_assoc]

theorem Linked.congr (h : Linked nodes prev l next)
    (hsame : ∀ node ∈ l.map Prod.fst, nodes' node = nodes node) : Linked nodes' prev l next := by
  induction l generalizing prev with
  | nil => trivial
  | cons p l ih =>
    obtain ⟨node, value⟩ := p
    exact ⟨(hsame node List.mem_cons_self).trans h.1,
      ih h.2 fun node hnode => hsame node (List.mem_cons_of_mem _ hnode)⟩

theorem Linked.mem (h : Linked nodes prev l next) {node : Nat}
    (hnode : node ∈ l.map Prod.fst) :
    (nodes node).linked = true := by
  induction l generalizing prev with
  | nil => simp at hnode
  | cons p l ih =>
    obtain ⟨a, value⟩ := p
    rcases List.mem_cons.mp hnode with rfl | hnode
    · rw [h.1]
    · exact ih h.2 hnode

theorem Linked.setPrev {node : Nat} {value : α} (h : Linked nodes prev ((node, value) :: l) next)
    (hfresh : node ∉ l.map Prod.fst) (prev' : Option Nat) :
    Linked (setPrev nodes node prev') prev' ((node, value) :: l) next := by
  refine ⟨by simp [OrderedRegistry.setPrev, h.1], h.2.congr fun node' hnode' => ?_⟩
  exact Function.update_of_ne (by rintro rfl; exact hfresh hnode') _ _

theorem Linked.setNext {node : Nat} {value : α} (h : Linked nodes prev (l ++ [(node, value)]) next)
    (hfresh : node ∉ l.map Prod.fst) (next' : Option Nat) :
    Linked (setNext nodes node next') prev (l ++ [(node, value)]) next' := by
  obtain ⟨hinit, hlast, -⟩ := linked_append.mp h
  refine linked_append.mpr ⟨hinit.congr fun node' hnode' => ?_, ?_, trivial⟩
  · exact Function.update_of_ne (by rintro rfl; exact hfresh hnode') _ _
  · simp [OrderedRegistry.setNext, hlast]

/-- A neighbour, if there is one, is told of the node after it. -/
def setNext? (nodes : Nat → Node α) (node next : Option Nat) : Nat → Node α :=
  match node with
  | none => nodes
  | some node => setNext nodes node next

def setPrev? (nodes : Nat → Node α) (node prev : Option Nat) : Nat → Node α :=
  match node with
  | none => nodes
  | some node => setPrev nodes node prev

theorem setNext?_of_ne {neighbour : Option Nat} {node : Nat} (h : neighbour ≠ some node) :
    setNext? nodes neighbour next node = nodes node := by
  cases neighbour with
  | none => rfl
  | some neighbour => exact Function.update_of_ne (fun heq => h (congrArg some heq.symm)) _ _

theorem setPrev?_of_ne {neighbour : Option Nat} {node : Nat} (h : neighbour ≠ some node) :
    setPrev? nodes neighbour prev node = nodes node := by
  cases neighbour with
  | none => rfl
  | some neighbour => exact Function.update_of_ne (fun heq => h (congrArg some heq.symm)) _ _

theorem Linked.setNext? (h : Linked nodes prev l next) (hnodup : (l.map Prod.fst).Nodup)
    (next' : Option Nat) :
    Linked (setNext? nodes (l.getLast?.map Prod.fst) next') prev l next' := by
  rcases List.eq_nil_or_concat l with rfl | ⟨l, ⟨node, value⟩, rfl⟩
  · trivial
  · rw [List.concat_eq_append] at h hnodup ⊢
    rw [List.map_append, List.nodup_append] at hnodup
    rw [List.getLast?_concat]
    exact h.setNext (fun hmem => hnodup.2.2 node hmem node (by simp) rfl) next'

theorem Linked.setPrev? (h : Linked nodes prev l next) (hnodup : (l.map Prod.fst).Nodup)
    (prev' : Option Nat) :
    Linked (setPrev? nodes (l.head?.map Prod.fst) prev') prev' l next := by
  cases l with
  | nil => trivial
  | cons p l => exact h.setPrev (List.nodup_cons.mp hnodup).1 prev'

end Linked

/-! ## Operations -/

variable {r : OrderedRegistry α} {l : List (Nat × α)}

theorem add_eq (r : OrderedRegistry α) (value : α) :
    r.add value =
      ({ nodes := setNext? (Function.update r.nodes r.allocated
            ⟨some value, r.last, none, true⟩) r.last (some r.allocated)
         allocated := r.allocated + 1
         first := if r.last = none then some r.allocated else r.first
         last := some r.allocated
         length := r.length + 1 }, r.allocated) := by
  rw [add]
  cases r.last <;> rfl

theorem mem_of_getLast? {node : Nat} (h : l.getLast?.map Prod.fst = some node) :
    node ∈ l.map Prod.fst := by
  obtain ⟨p, hp, rfl⟩ := Option.map_eq_some_iff.mp h
  exact List.mem_map_of_mem (List.mem_of_getLast? hp)

theorem mem_of_head? {node : Nat} (h : l.head?.map Prod.fst = some node) :
    node ∈ l.map Prod.fst := by
  obtain ⟨p, hp, rfl⟩ := Option.map_eq_some_iff.mp h
  exact List.mem_map_of_mem (List.mem_of_head? hp)

theorem Chain.add (h : Chain r l) (value : α) :
    Chain (r.add value).1 (l ++ [(r.allocated, value)]) := by
  have hfresh : r.allocated ∉ l.map Prod.fst := fun hmem =>
    Nat.lt_irrefl _ (h.bounded _ hmem)
  have hlast : r.last ≠ some r.allocated := fun hlast =>
    hfresh (mem_of_getLast? (h.last.symm.trans hlast))
  have hold : Linked (Function.update r.nodes r.allocated ⟨some value, r.last, none, true⟩) none l
      none :=
    h.linked.congr fun node hnode => Function.update_of_ne (by rintro rfl; exact hfresh hnode) _ _
  rw [add_eq]
  refine ⟨linked_append.mpr ⟨?_, ?_, trivial⟩, ?_, by simp, by simp [h.length], ?_, ?_, ?_⟩
  · have hnext := hold.setNext? h.nodup (some r.allocated)
    rw [← h.last] at hnext
    simpa using hnext
  · dsimp only
    rw [setNext?_of_ne hlast]
    simp [h.last]
  · rw [h.last, h.first]
    cases l <;> simp
  · rw [List.map_append, List.nodup_append]
    refine ⟨h.nodup, by simp, ?_⟩
    rintro node hnode _ hnew rfl
    exact hfresh (by simpa [List.mem_singleton.mp hnew] using hnode)
  · intro node hnode
    rcases List.mem_append.mp (List.map_append ▸ hnode) with hnode | hnode
    · exact Nat.lt_succ_of_lt (h.bounded node hnode)
    · simp only [List.map_cons, List.map_nil, List.mem_singleton] at hnode
      exact hnode ▸ Nat.lt_succ_self _
  · intro node hnode
    rw [List.map_append, List.mem_append, not_or] at hnode
    have hne : node ≠ r.allocated := by simpa using hnode.2
    dsimp only
    rw [setNext?_of_ne fun hlast => hnode.1 (mem_of_getLast? (h.last.symm.trans hlast)),
      Function.update_of_ne hne]
    exact h.others node hnode.1

theorem remove_eq {node : Nat} {value : Option α} {prev next : Option Nat}
    (h : r.nodes node = ⟨value, prev, next, true⟩) :
    r.remove node =
      { r with
        nodes := detach (setPrev? (setNext? r.nodes prev next) next prev) node
        first := if prev = none then next else r.first
        last := if next = none then prev else r.last
        length := r.length - 1 } := by
  simp only [remove, h, if_true]
  cases prev <;> cases next <;> rfl

/-- The removal of a handle whose node is not linked does nothing. -/
theorem Chain.remove_other (h : Chain r l) {node : Nat} (hnode : node ∉ l.map Prod.fst) :
    r.remove node = r := by
  simp [remove, h.others node hnode]

theorem Chain.remove_mem {node : Nat} {value : α} {l₁ l₂ : List (Nat × α)}
    (h : Chain r (l₁ ++ (node, value) :: l₂)) : Chain (r.remove node) (l₁ ++ l₂) := by
  obtain ⟨hl₁, hnode, hl₂⟩ := linked_append.mp h.linked
  have hnodup := h.nodup
  rw [List.map_append, List.map_cons, List.nodup_append, List.nodup_cons] at hnodup
  obtain ⟨hnodup₁, ⟨hnode₂, hnodup₂⟩, hdisjoint⟩ := hnodup
  have hnode₁ : node ∉ l₁.map Prod.fst := fun hmem =>
    hdisjoint node hmem node List.mem_cons_self rfl
  have hapart : ∀ a ∈ l₁.map Prod.fst, a ∉ l₂.map Prod.fst := fun a ha hb =>
    hdisjoint a ha a (List.mem_cons_of_mem _ hb) rfl
  rw [Option.or_none, Option.or_none] at hnode
  -- the nodes of both parts after the neighbours were told of each other
  have hparts : ∀ a, a ≠ node → a ∉ l₂.map Prod.fst →
      detach (OrderedRegistry.setPrev? (OrderedRegistry.setNext? r.nodes
        (l₁.getLast?.map Prod.fst) (l₂.head?.map Prod.fst)) (l₂.head?.map Prod.fst)
        (l₁.getLast?.map Prod.fst)) node a =
      OrderedRegistry.setNext? r.nodes (l₁.getLast?.map Prod.fst) (l₂.head?.map Prod.fst) a := by
    intro a hne ha
    rw [detach, Function.update_of_ne hne, setPrev?_of_ne fun hhead => ha (mem_of_head? hhead)]
  rw [remove_eq hnode]
  refine ⟨linked_append.mpr ⟨?_, ?_⟩, ?_, ?_, ?_, ?_, ?_, ?_⟩
  · have hnext := hl₁.setNext? hnodup₁ (l₂.head?.map Prod.fst)
    rw [Option.or_none]
    refine hnext.congr fun a ha => hparts a ?_ (hapart a ha)
    rintro rfl
    exact hnode₁ ha
  · have hbefore : Linked (OrderedRegistry.setNext? r.nodes (l₁.getLast?.map Prod.fst)
        (l₂.head?.map Prod.fst)) (some node) l₂ none :=
      hl₂.congr fun a ha => setNext?_of_ne fun hlast => hapart a (mem_of_getLast? hlast) ha
    have hprev := hbefore.setPrev? hnodup₂ (l₁.getLast?.map Prod.fst)
    rw [Option.or_none]
    refine hprev.congr fun a ha => Function.update_of_ne ?_ _ _
    rintro rfl
    exact hnode₂ ha
  · have hfirst := h.first
    cases l₁ with
    | nil => simp
    | cons p l₁ =>
      rw [List.cons_append, List.head?_cons] at hfirst ⊢
      rw [if_neg (by simp [List.getLast?_cons]), hfirst]
  · have hlast := h.last
    cases l₂ with
    | nil => simp
    | cons p l₂ =>
      rw [List.getLast?_append, List.getLast?_cons_cons] at hlast
      have hnext : ((p :: l₂).head?.map Prod.fst) ≠ none := by simp
      dsimp only
      rw [if_neg hnext, hlast, List.getLast?_append]
  · have hlength := h.length
    simp only [List.length_append, List.length_cons] at hlength ⊢
    omega
  · rw [List.map_append, List.nodup_append]
    exact ⟨hnodup₁, hnodup₂, fun a ha b hb heq => hapart a ha (heq ▸ hb)⟩
  · intro a ha
    refine h.bounded a ?_
    rw [List.map_append, List.mem_append] at ha ⊢
    exact ha.imp id (List.mem_cons_of_mem _)
  · intro a ha
    rw [List.map_append, List.mem_append, not_or] at ha
    by_cases hne : a = node
    · subst hne
      simp [detach]
    · dsimp only
      rw [hparts a hne ha.2, setNext?_of_ne fun hlast => ha.1 (mem_of_getLast? hlast)]
      refine h.others a ?_
      rw [List.map_append, List.map_cons, List.mem_append, List.mem_cons]
      rintro (hmem | heq | hmem)
      · exact ha.1 hmem
      · exact hne heq
      · exact ha.2 hmem

theorem filter_dead {node : Nat} (h : node ∉ l.map Prod.fst) :
    l.filter (·.1 ≠ node) = l := by
  refine List.filter_eq_self.mpr fun p hp => ?_
  have hne : p.1 ≠ node := fun heq => h (List.mem_map.mpr ⟨p, hp, heq⟩)
  simpa using hne

theorem Chain.remove (h : Chain r l) (node : Nat) :
    Chain (r.remove node) (l.filter (·.1 ≠ node)) := by
  by_cases hmem : node ∈ l.map Prod.fst
  · obtain ⟨⟨a, value⟩, hp, rfl⟩ := List.mem_map.mp hmem
    obtain ⟨l₁, l₂, rfl⟩ := List.append_of_mem hp
    have hnodup := h.nodup
    rw [List.map_append, List.map_cons, List.nodup_append, List.nodup_cons] at hnodup
    rw [List.filter_append, List.filter_cons_of_neg (by simp), filter_dead hnodup.2.1.1,
      filter_dead fun hmem => hnodup.2.2 a hmem a List.mem_cons_self rfl]
    exact h.remove_mem
  · rw [filter_dead hmem, h.remove_other hmem]
    exact h

/-! ## Walks -/

theorem Chain.length_le (h : Chain r l) : l.length ≤ r.allocated := by
  have hsub : l.map Prod.fst ⊆ List.range r.allocated := fun node hnode =>
    List.mem_range.mpr (h.bounded node hnode)
  simpa using (List.subperm_of_subset h.nodup hsub).length_le

theorem collect_linked {nodes : Nat → Node α} {fuel : Nat} {next : Option Nat} {acc : List α}
    (h : Linked nodes none l next) (hfuel : l.length ≤ fuel) :
    collect nodes fuel acc (l.getLast?.map Prod.fst) = l.map Prod.snd ++ acc := by
  induction l using List.reverseRecOn generalizing fuel next acc with
  | nil => cases fuel <;> rfl
  | append_singleton l p ih =>
    obtain ⟨node, value⟩ := p
    obtain ⟨hinit, hnode, -⟩ := linked_append.mp h
    rw [Option.or_none] at hnode
    cases fuel with
    | zero => simp at hfuel
    | succ fuel =>
      rw [List.getLast?_concat, Option.map_some, collect, hnode]
      dsimp only
      rw [ih hinit (by simpa using hfuel)]
      simp

theorem detachAll_linked {nodes : Nat → Node α} {fuel : Nat} {prev : Option Nat}
    (h : Linked nodes prev l none) (hnodup : (l.map Prod.fst).Nodup) (hfuel : l.length ≤ fuel)
    (node : Nat) :
    detachAll fuel nodes (l.head?.map Prod.fst) node =
      if node ∈ l.map Prod.fst then {} else nodes node := by
  induction l generalizing fuel nodes prev with
  | nil => cases fuel <;> simp [detachAll]
  | cons p l ih =>
    obtain ⟨a, value⟩ := p
    rw [List.map_cons, List.nodup_cons] at hnodup
    cases fuel with
    | zero => simp at hfuel
    | succ fuel =>
      have hrest : Linked (detach nodes a) (some a) l none :=
        h.2.congr fun b hb => Function.update_of_ne (by rintro rfl; exact hnodup.1 hb) _ _
      have hnext : (nodes a).next = l.head?.map Prod.fst := by
        rw [h.1]
        simp
      rw [List.head?_cons, Option.map_some, detachAll, hnext,
        ih hrest hnodup.2 (by simpa using hfuel)]
      by_cases ha : node = a
      · subst ha
        simp [detach]
      · simp only [detach, Function.update_of_ne ha, List.map_cons, List.mem_cons, ha, false_or]

/-! ## Registries in one heap -/

/-- The registrations of every registry, oldest first, and the number of all that were ever made. -/
structure Lists (α : Type) where
  entries : Nat → List (Nat × α)
  made : Nat

namespace Lists

def empty : Lists α := ⟨fun _ => [], 0⟩

def values (lists : Lists α) (k : Nat) : List α := (lists.entries k).map Prod.snd

/-- The handle has an element in some registry. -/
def Live (lists : Lists α) (node : Nat) : Prop := ∃ k, node ∈ (lists.entries k).map Prod.fst

def call (lists : Lists α) : Op α → Lists α × Reply α
  | .add k value =>
    (⟨Function.update lists.entries k (lists.entries k ++ [(lists.made, value)]), lists.made + 1⟩,
      .handle lists.made)
  | .remove node =>
    ({ lists with entries := fun k => (lists.entries k).filter (·.1 ≠ node) }, .unit)
  | .takeAll k =>
    ({ lists with entries := Function.update lists.entries k [] }, .values (lists.values k))
  | .clear k => ({ lists with entries := Function.update lists.entries k [] }, .unit)
  | .toList k => (lists, .values (lists.values k))

def run (lists : Lists α) : List (Op α) → Lists α × List (Reply α)
  | [] => (lists, [])
  | op :: ops =>
    let (lists, reply) := lists.call op
    ((lists.run ops).1, reply :: (lists.run ops).2)

end Lists

namespace Heap

variable {heap : Heap α} {lists : Lists α} {j k node : Nat}

def mask (owner : Nat → Nat) (k : Nat) (nodes : Nat → Node α) : Nat → Node α :=
  fun node => if owner node = k then nodes node else {}

/-- A registry with no nodes but its own. -/
def view (heap : Heap α) (k : Nat) : OrderedRegistry α :=
  { heap.get k with nodes := mask heap.registry k heap.nodes }

structure Holds (heap : Heap α) (lists : Lists α) : Prop where
  chain : ∀ k, Chain (heap.view k) (lists.entries k)
  allocated : heap.allocated = lists.made
  fresh : ∀ node, heap.allocated ≤ node → heap.nodes node = {}

section Mask

variable {owner : Nat → Nat} {nodes : Nat → Node α} {node' : Option Nat}

theorem mask_update (h : owner node = k) (x : Node α) :
    mask owner k (Function.update nodes node x) = Function.update (mask owner k nodes) node x := by
  funext a
  by_cases ha : a = node
  · subst ha
    simp [mask, h]
  · simp [mask, ha]

theorem mask_update_other (h : owner node ≠ k) (x : Node α) :
    mask owner k (Function.update nodes node x) = mask owner k nodes := by
  funext a
  by_cases ha : a = node
  · subst ha
    simp [mask, h]
  · simp [mask, ha]

theorem mask_setNext? (h : ∀ a ∈ node', owner a = k) (next : Option Nat) :
    mask owner k (setNext? nodes node' next) = setNext? (mask owner k nodes) node' next := by
  cases node' with
  | none => rfl
  | some a => simp [OrderedRegistry.setNext?, setNext, mask_update (h a rfl), mask, h a rfl]

theorem mask_setPrev? (h : ∀ a ∈ node', owner a = k) (prev : Option Nat) :
    mask owner k (setPrev? nodes node' prev) = setPrev? (mask owner k nodes) node' prev := by
  cases node' with
  | none => rfl
  | some a => simp [OrderedRegistry.setPrev?, setPrev, mask_update (h a rfl), mask, h a rfl]

theorem mask_setNext?_other (h : ∀ a ∈ node', owner a ≠ k) (next : Option Nat) :
    mask owner k (setNext? nodes node' next) = mask owner k nodes := by
  cases node' with
  | none => rfl
  | some a => exact mask_update_other (h a rfl) _

theorem mask_setPrev?_other (h : ∀ a ∈ node', owner a ≠ k) (prev : Option Nat) :
    mask owner k (setPrev? nodes node' prev) = mask owner k nodes := by
  cases node' with
  | none => rfl
  | some a => exact mask_update_other (h a rfl) _

end Mask

theorem holds_empty : Holds (empty : Heap α) Lists.empty where
  chain k := ⟨trivial, rfl, rfl, rfl, List.nodup_nil, by simp [Lists.empty], fun node _ => by
    simp [view, mask, get, empty]⟩
  allocated := rfl
  fresh _ _ := rfl

theorem Holds.owner (h : Holds heap lists) (hnode : node ∈ (lists.entries k).map Prod.fst) :
    heap.registry node = k ∧ node < heap.allocated := by
  refine ⟨?_, (h.chain k).bounded node hnode⟩
  by_contra hne
  have hlinked := (h.chain k).linked.mem hnode
  simp [view, mask, hne] at hlinked

theorem Holds.linked (h : Holds heap lists) (k : Nat) :
    Linked heap.nodes none (lists.entries k) none :=
  (h.chain k).linked.congr fun node hnode => by simp [view, mask, (h.owner hnode).1]

theorem Holds.last (h : Holds heap lists) (hlast : heap.last k = some node) :
    node ∈ (lists.entries k).map Prod.fst :=
  mem_of_getLast? ((h.chain k).last.symm.trans hlast)

theorem Holds.add (h : Holds heap lists) (k : Nat) (value : α) :
    Holds (heap.add k value).1 (lists.call (.add k value)).1 := by
  have hadd : heap.add k value =
      ({ (heap.set k ((heap.get k).add value).1) with
          registry := Function.update heap.registry heap.allocated k }, heap.allocated) := by
    simp [Heap.add, add_eq, get]
  have hold : ∀ a ∈ heap.last k, heap.registry a = k ∧ a < heap.allocated := fun a ha =>
    h.owner (h.last ha)
  have howner : ∀ a ∈ heap.last k, Function.update heap.registry heap.allocated k a = k := by
    intro a ha
    rw [Function.update_of_ne (Nat.ne_of_lt (hold a ha).2), (hold a ha).1]
  refine ⟨fun j => ?_, ?_, ?_⟩
  · by_cases hj : j = k
    · subst hj
      have hview : (heap.add j value).1.view j = ((heap.view j).add value).1 := by
        rw [hadd, add_eq, add_eq]
        simp only [view, get, set, Function.update_self]
        congr 1
        rw [mask_setNext? howner, mask_update (Function.update_self ..)]
        congr 2
        funext a
        by_cases ha : a = heap.allocated
        · subst ha
          simp [mask, h.fresh]
        · simp [mask, ha]
      have hchain := (h.chain j).add value
      rw [hview]
      simpa [Lists.call, view, get, h.allocated] using hchain
    · have hchain := h.chain j
      have hmask : mask (Function.update heap.registry heap.allocated k) j (setNext?
            (Function.update heap.nodes heap.allocated ⟨some value, heap.last k, none, true⟩)
            (heap.last k) (some heap.allocated)) = mask heap.registry j heap.nodes := by
        rw [mask_setNext?_other fun a ha heq => hj (heq.symm.trans (howner a ha)),
          mask_update_other (by simpa using Ne.symm hj)]
        funext a
        by_cases ha : a = heap.allocated
        · subst ha
          simp [mask, h.fresh]
        · simp [mask, ha]
      rw [hadd, add_eq]
      simp only [Lists.call, Function.update_of_ne hj]
      refine ⟨?_, ?_, ?_, ?_, hchain.nodup, fun a ha => ?_, ?_⟩
      · simpa [view, get, set, hmask] using hchain.linked
      · simpa [view, get, set, hj] using hchain.first
      · simpa [view, get, set, hj] using hchain.last
      · simpa [view, get, set, hj] using hchain.length
      · exact Nat.lt_succ_of_lt (hchain.bounded a ha)
      · simpa [view, get, set, hmask] using hchain.others
  · rw [hadd, add_eq]
    simp [set, get, Lists.call, h.allocated]
  · intro a ha
    rw [hadd, add_eq] at ha ⊢
    have hlt : heap.allocated < a := ha
    have hne : heap.last k ≠ some a := fun hlast =>
      absurd (hold a hlast).2 (Nat.not_lt_of_lt hlt)
    simp only [set, get]
    rw [setNext?_of_ne hne, Function.update_of_ne (Nat.ne_of_gt hlt)]
    exact h.fresh a (Nat.le_of_lt hlt)

/-- A linked node of the heap is registered with the registry that made it. -/
theorem Holds.mem (h : Holds heap lists) (hlinked : (heap.nodes node).linked = true) :
    node ∈ (lists.entries (heap.registry node)).map Prod.fst := by
  by_contra hnode
  have hother := (h.chain _).others node hnode
  simp [view, mask, hlinked] at hother

theorem set_get (heap : Heap α) (k : Nat) : heap.set k (heap.get k) = heap := by
  simp [set, get]

/-- The removal of a handle that has no element anywhere changes nothing. -/
theorem Holds.remove_dead (h : Holds heap lists) (hdead : ¬ lists.Live node) :
    heap.remove node = heap := by
  have hunlinked : (heap.nodes node).linked = false := by
    cases hl : (heap.nodes node).linked with
    | false => rfl
    | true => exact absurd ⟨_, h.mem hl⟩ hdead
  have hsame : (heap.get (heap.registry node)).remove node = heap.get (heap.registry node) := by
    simp [OrderedRegistry.remove, get, hunlinked]
  rw [Heap.remove, hsame, set_get]

/-- The neighbours of a registered node are registered with the same registry. -/
theorem Holds.neighbours (h : Holds heap lists) (hnode : node ∈ (lists.entries k).map Prod.fst) :
    ∃ value prev next, heap.nodes node = ⟨some value, prev, next, true⟩ ∧
      (∀ a ∈ prev, a ∈ (lists.entries k).map Prod.fst) ∧
      ∀ a ∈ next, a ∈ (lists.entries k).map Prod.fst := by
  obtain ⟨⟨a, value⟩, hp, rfl⟩ := List.mem_map.mp hnode
  obtain ⟨l₁, l₂, hl⟩ := List.append_of_mem hp
  have hlinked := h.linked k
  rw [hl] at hlinked
  obtain ⟨-, hat, -⟩ := linked_append.mp hlinked
  refine ⟨value, _, _, hat, ?_, ?_⟩
  · intro b hb
    rw [Option.or_none] at hb
    rw [hl, List.map_append, List.mem_append]
    exact .inl (mem_of_getLast? hb)
  · intro b hb
    rw [Option.or_none] at hb
    rw [hl, List.map_append, List.mem_append, List.map_cons]
    exact .inr (List.mem_cons_of_mem _ (mem_of_head? hb))

theorem Holds.remove (h : Holds heap lists) (node : Nat) :
    Holds (heap.remove node) (lists.call (.remove node)).1 := by
  by_cases hlive : lists.Live node
  · obtain ⟨k, hnode⟩ := hlive
    obtain ⟨value, prev, next, hat, hprev, hnext⟩ := h.neighbours hnode
    have hk := (h.owner hnode).1
    have hremove := remove_eq (r := heap.get k) hat
    have hview : heap.remove node = heap.set k ((heap.get k).remove node) := by
      rw [Heap.remove, hk]
    refine ⟨fun j => ?_, ?_, ?_⟩
    · by_cases hj : j = k
      · subst hj
        have hown : (heap.view j).nodes node = ⟨some value, prev, next, true⟩ := by
          simp [view, mask, hk, hat]
        have heq : (heap.remove node).view j = (heap.view j).remove node := by
          rw [hview, hremove, remove_eq hown]
          simp only [view, get, set, Function.update_self]
          congr 1
          rw [detach, mask_update hk, mask_setPrev? fun a ha => (h.owner (hnext a ha)).1,
            mask_setNext? fun a ha => (h.owner (hprev a ha)).1, detach]
        rw [heq]
        exact (h.chain j).remove node
      · have hdead : node ∉ (lists.entries j).map Prod.fst := fun hmem =>
          hj ((h.owner hmem).1.symm.trans hk)
        have heq : (heap.remove node).view j = heap.view j := by
          rw [hview, hremove]
          simp only [view, get, set, Function.update_of_ne hj]
          congr 1
          rw [detach, mask_update_other fun heq => hj (heq.symm.trans hk),
            mask_setPrev?_other fun a ha heq => hj (heq.symm.trans (h.owner (hnext a ha)).1),
            mask_setNext?_other fun a ha heq => hj (heq.symm.trans (h.owner (hprev a ha)).1)]
        rw [heq]
        simpa only [Lists.call, filter_dead hdead] using h.chain j
    · rw [hview, hremove]
      exact h.allocated
    · intro a ha
      rw [hview, hremove] at ha ⊢
      have hfar : ∀ b ∈ (lists.entries k).map Prod.fst, b ≠ a := fun b hb =>
        Nat.ne_of_lt (Nat.lt_of_lt_of_le (h.owner hb).2 ha)
      simp only [set, get, detach]
      rw [Function.update_of_ne (hfar node hnode).symm,
        setPrev?_of_ne fun hb => hfar a (hnext a hb) rfl,
        setNext?_of_ne fun hb => hfar a (hprev a hb) rfl]
      exact h.fresh a ha
  · rw [h.remove_dead hlive]
    refine ⟨fun j => ?_, h.allocated, h.fresh⟩
    simpa only [Lists.call, filter_dead fun hmem => hlive ⟨j, hmem⟩] using h.chain j

theorem Holds.toList (h : Holds heap lists) (k : Nat) : heap.toList k = lists.values k := by
  have hchain := h.chain k
  have hlength : (lists.entries k).length ≤ heap.allocated := hchain.length_le
  have hlast : heap.last k = (lists.entries k).getLast?.map Prod.fst := hchain.last
  simp only [Heap.toList, OrderedRegistry.toList, get, hlast]
  rw [collect_linked (h.linked k) hlength, List.append_nil, Lists.values]

theorem Holds.takeAll (h : Holds heap lists) (k : Nat) :
    (heap.takeAll k).1 = lists.values k ∧
      Holds (heap.takeAll k).2 (lists.call (.takeAll k)).1 := by
  have hchain := h.chain k
  have hfirst : heap.first k = (lists.entries k).head?.map Prod.fst := hchain.first
  have hnodes : ∀ a, (heap.takeAll k).2.nodes a =
      if a ∈ (lists.entries k).map Prod.fst then {} else heap.nodes a := by
    intro a
    simp only [Heap.takeAll, OrderedRegistry.takeAll, set, get, hfirst]
    exact detachAll_linked (h.linked k) hchain.nodup hchain.length_le a
  refine ⟨h.toList k, fun j => ?_, h.allocated, fun a ha => ?_⟩
  · by_cases hj : j = k
    · subst hj
      simp only [Lists.call, Function.update_self]
      refine ⟨trivial, ?_, ?_, ?_, List.nodup_nil, by simp, fun a _ => ?_⟩
      · simp [view, get, Heap.takeAll, OrderedRegistry.takeAll, set]
      · simp [view, get, Heap.takeAll, OrderedRegistry.takeAll, set]
      · simp [view, get, Heap.takeAll, OrderedRegistry.takeAll, set]
      · simp only [view, mask, hnodes]
        have hother := hchain.others a
        simp only [view, mask] at hother
        by_cases hmem : a ∈ (lists.entries j).map Prod.fst
        · simp [hmem]
        · simpa only [hmem, if_false, Heap.takeAll, set] using hother hmem
    · simp only [Lists.call, Function.update_of_ne hj]
      have hmask : ((heap.takeAll k).2.view j).nodes = (heap.view j).nodes := by
        funext a
        simp only [view, mask, hnodes]
        by_cases hmem : a ∈ (lists.entries k).map Prod.fst
        · have hne : heap.registry a ≠ j := fun heq => hj (heq.symm.trans (h.owner hmem).1)
          simp only [Heap.takeAll, set, hne, if_false]
        · simp only [hmem, if_false, Heap.takeAll, set]
      have heq : (heap.takeAll k).2.view j = heap.view j := by
        refine OrderedRegistry.mk.injEq .. |>.mpr ⟨hmask, ?_⟩
        simp [get, Heap.takeAll, set, OrderedRegistry.takeAll, hj]
      rw [heq]
      exact h.chain j
  · rw [hnodes]
    split_ifs
    · rfl
    · exact h.fresh a ha

/-- One call: the same reply, and the lists are held again. -/
theorem Holds.call (h : Holds heap lists) (op : Op α) :
    (heap.call op).2 = (lists.call op).2 ∧ Holds (heap.call op).1 (lists.call op).1 := by
  cases op with
  | add k value =>
    refine ⟨?_, h.add k value⟩
    simp [Heap.call, Lists.call, Heap.add, add_eq, get, h.allocated]
  | remove node => exact ⟨rfl, h.remove node⟩
  | takeAll k => exact ⟨congrArg Reply.values (h.takeAll k).1, (h.takeAll k).2⟩
  | clear k => exact ⟨rfl, (h.takeAll k).2⟩
  | toList k => exact ⟨congrArg Reply.values (h.toList k), h⟩

theorem Holds.run (h : Holds heap lists) (ops : List (Op α)) :
    (heap.run ops).2 = (lists.run ops).2 ∧ Holds (heap.run ops).1 (lists.run ops).1 := by
  induction ops generalizing heap lists with
  | nil => exact ⟨rfl, h⟩
  | cons op ops ih =>
    obtain ⟨hreply, hnext⟩ := h.call op
    obtain ⟨hreplies, hend⟩ := ih hnext
    exact ⟨congrArg₂ List.cons hreply hreplies, hend⟩

end Heap

/-- **Registries are lists.** Whatever is called on any registries and handles, every call replies
as on the lists of what was added and not removed. After these calls `to_list` and `take_all` return
the list of the registry; a handle has at most one element, in one registry; and the removal of a
handle that has none, because it was removed or taken, changes nothing in any registry. -/
theorem registries_are_lists (ops : List (Op α)) :
    let heap := (Heap.empty.run ops).1
    let lists := (Lists.empty.run ops).1
    (Heap.empty.run ops).2 = (Lists.empty.run ops).2 ∧
      (∀ k, heap.toList k = lists.values k ∧ (heap.takeAll k).1 = lists.values k) ∧
      (∀ k, ((lists.entries k).map Prod.fst).Nodup) ∧
      (∀ node j k, node ∈ (lists.entries j).map Prod.fst →
        node ∈ (lists.entries k).map Prod.fst → j = k) ∧
      ∀ node, ¬ lists.Live node → heap.remove node = heap := by
  obtain ⟨hreplies, h⟩ := Heap.holds_empty.run ops
  refine ⟨hreplies, fun k => ⟨h.toList k, (h.takeAll k).1⟩, fun k => (h.chain k).nodup, ?_,
    fun node hdead => h.remove_dead hdead⟩
  intro node j k hj hk
  exact (h.owner hj).1.symm.trans (h.owner hk).1

example : (Heap.empty.run [.add 0 'a', .add 1 'b', .add 0 'c', .remove 0, .remove 0, .takeAll 0,
    .remove 2, .toList 1]).2 =
    [.handle 0, .handle 1, .handle 2, .unit, .unit, .values ['c'], .unit, .values ['b']] := by
  decide

end OcamlTemporal.OrderedRegistry
