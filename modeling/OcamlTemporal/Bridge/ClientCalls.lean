import Mathlib
import OcamlTemporal.Lib.Keyed
import OcamlTemporal.Lib.Transitions
import OcamlTemporal.Protocol.Values

/-!
# OcamlTemporal.Bridge.ClientCalls

The registry of client calls of `rust/core-bridge/src/client_calls.rs`, shared by every owner
(a runtime) of the process. A call is registered by its owner and completed by its task; the
owner's callers await it, release it, or release every call of the owner.

Every critical section is one step: the registry has one mutex and each call's slot another,
and no section holds both.

* An await looks its call up (`lookup`), then checks the slot under the slot's mutex (`check`):
  it waits (`blocked`) while the slot is pending and time remains. A waiter is woken by a
  notification, by its timeout or spuriously (`wake`) and checks again. After a terminal read
  it removes the call from the registry (`retire`).
* A release removes its calls from the registry (`release`, `releaseOwner`) and closes their
  slots one by one (`close`).
* `register` takes an identifier (`fetch`) before it enters the registry (`insert`).

Threads are named by their owner and a number. `State.trace` is not in the source; it records
what the owners see. Identifiers name slots, which is what the source's `Arc` does as long as
no identifier is used twice.
-/

namespace OcamlTemporal.Bridge.ClientCalls

open Protocol (Bytes)

/-! ## Outcomes and slots -/

/-- The statuses of `abi.rs` that the registry itself gives. -/
inductive Status
  | panic
  | internal
  | invalidState
  | notReady
  | other (code : Nat)
  deriving DecidableEq, Repr

structure Failure where
  status : Status
  message : String
  deriving DecidableEq, Repr

abbrev Operation := Except Failure Bytes

def closedFailure : Failure :=
  ⟨.invalidState, "Temporal client call ended because the client shut down"⟩

def notReadyFailure : Failure := ⟨.notReady, "Temporal client call has not completed; retry"⟩

def panicFailure : Failure := ⟨.panic, "Rust panic contained in a Temporal client call"⟩

def exhaustedFailure : Failure := ⟨.internal, "Temporal client call identifiers are exhausted"⟩

def reserveFailure : Failure := ⟨.internal, "could not reserve a Temporal client call slot"⟩

/-- The failure that a guard leaves behind when its task ends without an outcome. -/
def dropFailure (panicking : Bool) : Failure := if panicking then panicFailure else closedFailure

def maxCallId : Nat := 2 ^ 62

inductive SlotState
  | pending
  | ready (outcome : Operation)
  | closed

/-- Whether no outcome is there and one may still come. -/
def SlotState.isPending : SlotState → Bool
  | pending => true
  | ready _ | closed => false

/-! ## Callers -/

/-- Where an await that found its call stands. A blocked one has been notified or not; a
terminal one has read `outcome`, and `published` says that its task had put it there. -/
inductive Phase
  | holding
  | blocked (notified : Bool)
  | terminal (outcome : Operation) (published : Bool)

structure Await where
  call : Nat
  phase : Phase

def Await.notify (call : Nat) (a : Await) : Await :=
  match a.phase with
  | .blocked _ => if a.call = call then { a with phase := .blocked true } else a
  | _ => a

/-- A release that has left the registry: the slots still to close, and the call whose task
is aborted then. -/
structure Release where
  closing : List Nat
  task : Option Nat

/-- The operations of an owner's callers and of the tasks of its calls, by critical section. -/
inductive Op
  | fetch (call : Nat)
  -- `reserved`: the maps could be enlarged
  | insert (call : Nat) (reserved : Bool)
  | attach (call : Nat)
  | complete (call : Nat) (outcome : Operation)
  | dropGuard (call : Nat) (panicking : Bool)
  | lookup (thread call : Nat)
  -- `elapsed`: no time remains to wait
  | check (thread : Nat) (elapsed : Bool)
  | wake (thread : Nat)
  | retire (thread : Nat)
  | release (thread call : Nat)
  -- the calls in the order in which the hash map yields them
  | releaseOwner (thread : Nat) (calls : List Nat)
  | close (thread : Nat)
  | registeredCalls
  | unregisteredCalls (calls : List Nat)

inductive Event
  | refused (failure : Failure)
  | registered (call : Nat)
  | aborted (call : Nat)
  | published (call : Nat) (outcome : Operation)
  | returned (thread call : Nat) (result : Operation) (published : Bool)
  | released (thread : Nat)
  | counted (n : Nat)
  | unregistered (calls : List Nat)

/-! ## The registry -/

structure RegisteredCall where
  call : Nat
  owner : Nat
  task : Bool
  deriving DecidableEq, Repr

/-- The slot of a call. `armed`: its guard has not completed or dropped it. The owner is not in
the source. -/
structure CallSlot where
  owner : Nat
  state : SlotState
  armed : Bool

/-- `CALLS`, `NEXT_CALL`, the slots and the callers. An owner without calls has no entry in
`per_owner`, here the count 0. -/
structure State where
  nextCall : Nat
  fetched : List (Nat × Nat)
  calls : Lib.Keyed RegisteredCall.call
  perOwner : Nat → Nat
  slots : Nat → Option CallSlot
  awaits : Nat × Nat → Option Await
  releases : Nat × Nat → Option Release
  trace : List (Nat × Event)

namespace State

def init : State where
  nextCall := 1
  fetched := []
  calls := .empty
  perOwner := fun _ => 0
  slots := fun _ => none
  awaits := fun _ => none
  releases := fun _ => none
  trace := []

def log (s : State) (owner : Nat) (e : Event) : State := { s with trace := s.trace ++ [(owner, e)] }

def remove (s : State) (call : Nat) (owner : Option Nat) : Option RegisteredCall × State :=
  match s.calls.find? call with
  | some registered =>
    if owner.all (· = registered.owner) then
      (some registered,
        { s with
          calls := s.calls.erase call
          perOwner := Function.update s.perOwner registered.owner
            (s.perOwner registered.owner - 1) })
    else (none, s)
  | none => (none, s)

def removeAll (s : State) (owner : Nat) : List Nat → State
  | [] => s
  | call :: rest => (s.remove call (some owner)).2.removeAll owner rest

def setSlot (s : State) (call : Nat) (slot : CallSlot) : State :=
  { s with slots := Function.update s.slots call (some slot) }

def notifyAll (s : State) (call : Nat) : State :=
  { s with awaits := fun key => (s.awaits key).map (Await.notify call) }

/-- The end of a `CompletionGuard` with `CallSlot::complete`: the outcome is published if the
slot is still pending, and the guard is disarmed. -/
def settle (s : State) (owner call : Nat) (outcome : Operation) : Option State :=
  match s.slots call with
  | some slot =>
    if slot.owner = owner ∧ slot.armed = true then
      if slot.state.isPending then
        some (((s.setSlot call ⟨owner, .ready outcome, false⟩).notifyAll call).log owner
          (.published call outcome))
      else some (s.setSlot call { slot with armed := false })
    else none
  | none => none

/-- `CallSlot::close`. A ready outcome stays for a caller that holds the slot. -/
def closeSlot (s : State) (call : Nat) (slot : CallSlot) : State :=
  if slot.state.isPending then (s.setSlot call { slot with state := .closed }).notifyAll call else s

def endAwait (s : State) (owner thread call : Nat) (result : Operation) (published : Bool) :
    State :=
  { s with awaits := Function.update s.awaits (owner, thread) none }.log owner
    (.returned thread call result published)

def setAwait (s : State) (owner thread : Nat) (a : Await) : State :=
  { s with awaits := Function.update s.awaits (owner, thread) (some a) }

def setRelease (s : State) (owner thread : Nat) (r : Option Release) : State :=
  { s with releases := Function.update s.releases (owner, thread) r }

def ownCalls (s : State) (owner : Nat) : List Nat :=
  (s.calls.entries.filter (·.owner = owner)).map (·.call)

/-- Every test whether an owner has fetched an identifier rests on this one proof. -/
instance : LawfulBEq (Nat × Nat) := inferInstance

/-- One critical section of an operation of `owner`. -/
def step (label : Nat × Op) (s : State) : Option State :=
  let owner := label.1
  match label.2 with
  | .fetch call =>
    if call = s.nextCall then
      some { s with nextCall := (s.nextCall + 1) % 2 ^ 64, fetched := (owner, call) :: s.fetched }
    else none
  | .insert call reserved =>
    if (owner, call) ∈ s.fetched then
      let s := { s with fetched := s.fetched.erase (owner, call) }
      if call ≥ maxCallId then some (s.log owner (.refused exhaustedFailure))
      else if reserved then
        let s := s.setSlot call ⟨owner, .pending, true⟩
        some ({ s with
          perOwner := Function.update s.perOwner owner (s.perOwner owner + 1)
          calls := s.calls.set ⟨call, owner, false⟩ }.log owner (.registered call))
      else some (s.log owner (.refused reserveFailure))
    else none
  | .attach call =>
    match s.calls.find? call with
    | some registered =>
      if registered.owner = owner then
        some { s with calls := s.calls.set { registered with task := true } }
      else some (s.log owner (.aborted call))
    | none => some (s.log owner (.aborted call))
  | .complete call outcome => s.settle owner call outcome
  | .dropGuard call panicking => s.settle owner call (.error (dropFailure panicking))
  | .lookup thread call =>
    if (s.awaits (owner, thread)).isSome then none
    else
      match s.calls.find? call with
      | some registered =>
        if registered.owner = owner then some (s.setAwait owner thread ⟨call, .holding⟩)
        else some (s.endAwait owner thread call (.error closedFailure) false)
      | none => some (s.endAwait owner thread call (.error closedFailure) false)
  | .check thread elapsed =>
    match s.awaits (owner, thread) with
    | some ⟨call, .holding⟩ =>
      match s.slots call with
      | some ⟨_, .pending, _⟩ =>
        if elapsed then some (s.endAwait owner thread call (.error notReadyFailure) false)
        else some (s.setAwait owner thread ⟨call, .blocked false⟩)
      | some ⟨slotOwner, .ready outcome, armed⟩ =>
        some ((s.setSlot call ⟨slotOwner, .closed, armed⟩).setAwait owner thread
          ⟨call, .terminal outcome true⟩)
      | some ⟨_, .closed, _⟩ =>
        some (s.setAwait owner thread ⟨call, .terminal (.error closedFailure) false⟩)
      | none => none
    | _ => none
  | .wake thread =>
    match s.awaits (owner, thread) with
    | some ⟨call, .blocked _⟩ => some (s.setAwait owner thread ⟨call, .holding⟩)
    | _ => none
  | .retire thread =>
    match s.awaits (owner, thread) with
    | some ⟨call, .terminal outcome published⟩ =>
      some ((s.remove call (some owner)).2.endAwait owner thread call outcome published)
    | _ => none
  | .release thread call =>
    if (s.releases (owner, thread)).isSome then none
    else
      match s.remove call (some owner) with
      | (some released, s) =>
        let task := if released.task then some call else none
        some (s.setRelease owner thread (some ⟨[call], task⟩))
      | (none, s) => some (s.log owner (.released thread))
  | .releaseOwner thread calls =>
    if (s.releases (owner, thread)).isSome ∨ ¬ calls.Perm (s.ownCalls owner) then none
    else some ((s.removeAll owner calls).setRelease owner thread (some ⟨calls, none⟩))
  | .close thread =>
    match s.releases (owner, thread) with
    | some ⟨call :: rest, task⟩ =>
      match s.slots call with
      | some slot =>
        some ((s.closeSlot call slot).setRelease owner thread (some ⟨rest, task⟩))
      | none => none
    | some ⟨[], none⟩ => some ((s.setRelease owner thread none).log owner (.released thread))
    | some ⟨[], some call⟩ =>
      some (((s.setRelease owner thread none).log owner (.aborted call)).log owner
        (.released thread))
    | none => none
  | .registeredCalls => some (s.log owner (.counted (s.perOwner owner)))
  | .unregisteredCalls calls =>
    some (s.log owner (.unregistered (calls.filter fun call =>
      !((s.calls.find? call).any fun registered => registered.owner = owner))))

end State

/-- The registry under every schedule of its owners' callers and tasks. -/
def system : Lib.Transitions State (Nat × Op) where
  start s := s = State.init
  step := State.step

/-- Every identifier that is taken is below the bound. -/
def fewCalls (s : State) (_ : Nat × Op) : Prop := s.nextCall < maxCallId

instance (s : State) (l : Nat × Op) : Decidable (fewCalls s l) :=
  inferInstanceAs (Decidable (_ < _))

end OcamlTemporal.Bridge.ClientCalls
