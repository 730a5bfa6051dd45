import Mathlib.Data.Finset.Card
import OcamlTemporal.Bridge.ClientCalls
import OcamlTemporal.Protocol.ClientRequests

/-!
# OcamlTemporal.Bridge.Submissions

The admission of client calls by one runtime (`submit_client_call` and `reap_released_calls` of
`rust/core-bridge/src/abi.rs`), over the registry of `Bridge.ClientCalls`.

The map of task handles belongs to the runtime's owner; the registry and the tasks change under
it. A submission is therefore a sequence of steps, each with one access to what is shared: the
state of one task, or one critical section of the registry.

* `retaining` drops the handles of finished tasks, one after the other.
* `marking` asks the registry which calls it no longer has and marks them released, then checks
  the limit of the request's class.
* `reaping` joins the released tasks when the map has reached the ceiling.
* `counting` compares the ceiling with the held handles and the registered calls.
* `fetching` and `registering` are `register`; `spawning` starts the task, and `attaching` gives
  the registry its abort handle and puts its handle into the map.

Between any two of them the callers of this runtime await and release, its tasks publish and end,
and other runtimes do anything.

`State.requests`, `spawned`, `base` and `answers` are not in the source: they record what was
submitted and what each submission made.
-/

namespace OcamlTemporal.Bridge.Submissions

open Protocol (Bytes StartWorkflowRequest WaitWorkflowRequest sameStartRequest)
open ClientCalls (Failure Operation maxCallId exhaustedFailure reserveFailure)

structure ClientLimits where
  pendingWaits : Nat
  pendingStarts : Nat
  inFlightCalls : Nat
  deriving DecidableEq, Repr

/-- A decoded request. The operations other than starts and waits are not told apart by the
admission. -/
inductive ClientRpc
  | start (request : StartWorkflowRequest)
  | wait (request : WaitWorkflowRequest)
  | other
  deriving DecidableEq, Repr

inductive CallScope
  | start (request : StartWorkflowRequest)
  | wait (request : WaitWorkflowRequest)
  | bounded
  | released
  deriving DecidableEq, Repr

def CallScope.isReleased : CallScope → Bool
  | released => true
  | _ => false

structure PendingCall where
  call : Nat
  scope : CallScope
  deriving DecidableEq, Repr

abbrev PendingCalls := Lib.Keyed PendingCall.call

/-! ## Failures -/

def statusProtocol : ClientCalls.Status := .other 11

def statusResourceExhausted : ClientCalls.Status := .other 15

def otherRequestFailure : Failure :=
  ⟨statusProtocol, "start request_id is already pending for a different request"⟩

def limitFailure (what : String) (limit : Nat) : Failure :=
  ⟨statusResourceExhausted, "too many Temporal " ++ what ++ " are pending (limit " ++
    toString limit ++ ")"⟩

/-! ## The class of a request -/

def starts (scopes : List CallScope) : List StartWorkflowRequest :=
  scopes.filterMap fun
    | .start request => some request
    | _ => none

def waits (scopes : List CallScope) : List WaitWorkflowRequest :=
  scopes.filterMap fun
    | .wait request => some request
    | _ => none

def requestIds (scopes : List CallScope) : Finset Bytes :=
  ((starts scopes).map (·.requestId)).toFinset

/-- The scope of a request, if the limit of its class admits it beside the pending ones. -/
def callScope (limits : ClientLimits) (scopes : List CallScope) :
    ClientRpc → Except Failure CallScope
  | .start request =>
    if (starts scopes).any fun pending =>
        pending.requestId = request.requestId && !sameStartRequest pending request then
      .error otherRequestFailure
    else if (requestIds scopes).card ≥ limits.pendingStarts ∧
        request.requestId ∉ requestIds scopes then
      .error (limitFailure "workflow starts" limits.pendingStarts)
    else .ok (.start request)
  | .wait request =>
    if (waits scopes).toFinset.card ≥ limits.pendingWaits ∧ request ∉ (waits scopes).toFinset then
      .error (limitFailure "workflow waits" limits.pendingWaits)
    else .ok (.wait request)
  | .other => .ok .bounded

/-! ## The runtime -/

inductive TaskState
  | running
  | finished
  deriving DecidableEq, Repr

/-- Where the submission of the owner stands. -/
inductive Phase
  | idle
  | retaining (rpc : ClientRpc) (todo : List Nat)
  | marking (rpc : ClientRpc)
  | reaping (rpc : ClientRpc) (scope : CallScope) (todo : List Nat)
  | counting (rpc : ClientRpc) (scope : CallScope)
  | fetching (rpc : ClientRpc) (scope : CallScope)
  | registering (rpc : ClientRpc) (scope : CallScope) (call : Nat)
  | spawning (rpc : ClientRpc) (scope : CallScope) (call : Nat)
  | attaching (rpc : ClientRpc) (scope : CallScope) (call : Nat)

/-- What a submission returned, and how many tasks and registrations it made. -/
structure Answer where
  result : Operation
  tasks : Nat
  registrations : Nat

structure State where
  registry : ClientCalls.State
  pendingCalls : PendingCalls
  tasks : Nat → Option TaskState
  phase : Phase
  requests : Nat → Option ClientRpc
  spawned : Nat
  base : Nat × Nat
  answers : List Answer

inductive Label
  -- a submission, with what the request document, the worker and the connection gave
  | submit (request : Except Failure ClientRpc)
  -- the next step of the submission. `reserved`: a map could be enlarged.
  | owner (reserved : Bool)
  | complete (call : Nat) (outcome : Operation)
  | dropGuard (call : Nat) (panicking : Bool)
  | finish (call : Nat)
  -- a caller of this runtime awaits or releases
  | caller (op : ClientCalls.Op)
  -- another runtime
  | other (owner : Nat) (op : ClientCalls.Op)

/-- The operations of `await_call` and `release_call`. -/
def isCallerOp : ClientCalls.Op → Bool
  | .lookup .. | .check .. | .wake _ | .retire _ | .release .. | .close _ => true
  | _ => false

def isRegistration (owner : Nat) : Nat × ClientCalls.Event → Bool
  | (o, .registered _) => o = owner
  | _ => false

def registrations (owner : Nat) (registry : ClientCalls.State) : Nat :=
  registry.trace.countP (isRegistration owner)

def scopes (pending : PendingCalls) : List CallScope := pending.entries.map (·.scope)

/-- The calls that are no longer registered for the owner (`unregistered_calls`). -/
def unregistered (registry : ClientCalls.State) (owner : Nat) (calls : List Nat) : List Nat :=
  calls.filter fun call =>
    !((registry.calls.find? call).any fun registered => registered.owner = owner)

/-- The handles of the given calls are marked released. -/
def release (pending : PendingCalls) (calls : List Nat) : PendingCalls :=
  pending.map (fun entry => if entry.call ∈ calls then { entry with scope := .released } else entry)
    fun entry => by split <;> rfl

/-- The calls whose handles are not marked released. -/
def unreleased (pending : PendingCalls) : List Nat :=
  (pending.entries.filter fun entry => !entry.scope.isReleased).map (·.call)

namespace State

def init : State where
  registry := .init
  pendingCalls := .empty
  tasks := fun _ => none
  phase := .idle
  requests := fun _ => none
  spawned := 0
  base := (0, 0)
  answers := []

variable (limits : ClientLimits) (owner : Nat)

def answer (s : State) (result : Operation) : State :=
  { s with
    phase := .idle
    answers := ⟨result, s.spawned - s.base.1, registrations owner s.registry - s.base.2⟩ ::
      s.answers }

def onRegistry (s : State) (label : Nat × ClientCalls.Op) : Option State :=
  (s.registry.step label).map fun registry => { s with registry }

/-- The released calls are marked, the class of the request is checked, and at the ceiling the
released tasks leave the map to be joined. -/
def mark (s : State) (rpc : ClientRpc) (calls : List Nat) : State :=
  let pending := release s.pendingCalls calls
  match callScope limits (scopes pending) rpc with
  | .error failure => { s with pendingCalls := pending }.answer owner (.error failure)
  | .ok scope =>
    if pending.entries.length ≥ limits.inFlightCalls then
      { s with
        pendingCalls := pending.filter fun entry => !entry.scope.isReleased
        phase := .reaping rpc scope
          ((pending.entries.filter fun entry => entry.scope.isReleased).map (·.call)) }
    else { s with pendingCalls := pending, phase := .counting rpc scope }

/-- The ceiling for the registered calls, after that for the handles. -/
def count (s : State) (rpc : ClientRpc) (scope : CallScope) (reserved : Bool) : State :=
  if s.registry.perOwner owner ≥ limits.inFlightCalls then
    s.answer owner (.error (limitFailure "client calls" limits.inFlightCalls))
  else if reserved then { s with phase := .fetching rpc scope }
  else s.answer owner (.error reserveFailure)

def register (s : State) (rpc : ClientRpc) (scope : CallScope) (call : Nat) (reserved : Bool) :
    State :=
  if call ≥ maxCallId then s.answer owner (.error exhaustedFailure)
  else if reserved then
    { s with
      phase := .spawning rpc scope call
      requests := Function.update s.requests call (some rpc) }
  else s.answer owner (.error reserveFailure)

def ownerStep (reserved : Bool) (s : State) : Option State :=
  match s.phase with
  | .idle => none
  | .retaining rpc [] => some { s with phase := .marking rpc }
  | .retaining rpc (call :: todo) =>
    if s.tasks call = some .finished then
      some { s with pendingCalls := s.pendingCalls.erase call, phase := .retaining rpc todo }
    else some { s with phase := .retaining rpc todo }
  | .marking rpc =>
    let calls := unreleased s.pendingCalls
    (s.onRegistry (owner, .unregisteredCalls calls)).map fun s' =>
      s'.mark limits owner rpc (unregistered s.registry owner calls)
  | .reaping rpc scope [] => some { s with phase := .counting rpc scope }
  | .reaping rpc scope (call :: todo) =>
    if s.tasks call = some .finished then some { s with phase := .reaping rpc scope todo } else none
  | .counting rpc scope =>
    if (unreleased s.pendingCalls).length ≥ limits.inFlightCalls then
      some (s.answer owner (.error (limitFailure "client calls" limits.inFlightCalls)))
    else
      (s.onRegistry (owner, .registeredCalls)).map fun s' =>
        s'.count limits owner rpc scope reserved
  | .fetching rpc scope =>
    let call := s.registry.nextCall
    (s.onRegistry (owner, .fetch call)).map fun s' =>
      { s' with phase := .registering rpc scope call }
  | .registering rpc scope call =>
    (s.onRegistry (owner, .insert call reserved)).map fun s' =>
      s'.register owner rpc scope call reserved
  | .spawning rpc scope call =>
    some { s with
      phase := .attaching rpc scope call
      tasks := Function.update s.tasks call (some .running)
      spawned := s.spawned + 1 }
  | .attaching _ scope call =>
    (s.onRegistry (owner, .attach call)).map fun s' =>
      { s' with pendingCalls := s'.pendingCalls.set ⟨call, scope⟩ }.answer owner
        (.ok (Protocol.text (toString owner ++ "." ++ toString call)))

def submit (s : State) (request : Except Failure ClientRpc) : State :=
  let s := { s with base := (s.spawned, registrations owner s.registry) }
  match request with
  | .error failure => s.answer owner (.error failure)
  | .ok rpc => { s with phase := .retaining rpc (s.pendingCalls.entries.map (·.call)) }

def step (label : Label) (s : State) : Option State :=
  match label with
  | .submit request =>
    match s.phase with
    | .idle => some (s.submit owner request)
    | _ => none
  | .owner reserved => s.ownerStep limits owner reserved
  | .complete call outcome =>
    if s.tasks call = some .running then s.onRegistry (owner, .complete call outcome) else none
  | .dropGuard call panicking =>
    if s.tasks call = some .running then s.onRegistry (owner, .dropGuard call panicking) else none
  | .finish call =>
    -- a task ends after its guard
    if s.tasks call = some .running ∧ (s.registry.slots call).any (fun slot => !slot.armed) then
      some { s with tasks := Function.update s.tasks call (some .finished) }
    else none
  | .caller op => if isCallerOp op then s.onRegistry (owner, op) else none
  | .other o op => if o ≠ owner then s.onRegistry (o, op) else none

end State

/-- The submissions of a runtime with these limits, under every schedule. -/
def system (limits : ClientLimits) (owner : Nat) : Lib.Transitions State Label where
  start s := s = State.init
  step := State.step limits owner

end OcamlTemporal.Bridge.Submissions
