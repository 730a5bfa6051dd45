import Mathlib
import OcamlTemporal.Base.Error
import OcamlTemporal.Lib.SelfDelimiting
import OcamlTemporal.Lib.Transitions
import OcamlTemporal.Protocol.Values

/-!
# OcamlTemporal.Mock.Service

The ledger behind `mock://` clients (`lib/public/backend.ml`): starting, waiting for, cancelling,
terminating and resetting runs. Every call holds the service's mutex, so it is one step.

* The tables `executions` and `history` share the mutable records of the runs. **`Service.runs`** is
  the memory they are in, and the tables hold indices into it; a new record is put at the end.
* Strings are bytes. Copies of payloads are not modelled, since nothing is mutated here.
* The counter of runs is a natural number; in the source it wraps after `2^62` runs.
* The retry policy of a request is of any type with equality: its coefficient is finite by
  `Retry_policy.make`, so that the structural equality of the source is one. The deadline of a call
  is left out, as the fingerprint leaves it out.
* An already-started error keeps the identities that it renders into its message and its detail.
-/

namespace OcamlTemporal.Mock

open OcamlTemporal.Protocol (Bytes text)
open OcamlTemporal.Lib (decimal)

structure Successor where
  workflowId : Bytes
  runId : Bytes
  deriving DecidableEq

inductive Terminal
  | pending
  | completed
  | completedWithSuccessor (successor : Successor)
  | continuedAsNew (successor : Successor)
  | cancelled
  | terminated
  | failed (error : OcamlTemporal.Error) (successor : Option Successor)
  | timedOut (error : OcamlTemporal.Error) (successor : Option Successor)
  deriving DecidableEq

structure Execution where
  runId : Bytes
  workflowType : Bytes
  taskQueue : Bytes
  input : Protocol.Payload
  terminal : Terminal
  deriving DecidableEq

inductive ConflictPolicy
  | fail
  | useExisting
  | terminateExisting
  deriving DecidableEq

inductive ReusePolicy
  | allowDuplicate
  | allowDuplicateFailedOnly
  | rejectDuplicate
  deriving DecidableEq

/-- A start after encoding. `R` is the type of retry policies. -/
structure StartRequest (R : Type) where
  requestId : Option Bytes
  workflowName : Bytes
  workflowId : Bytes
  taskQueue : Bytes
  input : List Protocol.Payload
  memo : List (Bytes × Protocol.Payload)
  searchAttributes : List (Bytes × Protocol.Payload)
  idConflictPolicy : ConflictPolicy
  idReusePolicy : ReusePolicy
  executionTimeoutMs : Option Int
  runTimeoutMs : Option Int
  taskTimeoutMs : Option Int
  retryPolicy : Option R
  deriving DecidableEq

structure StartResponse where
  workflowId : Bytes
  runId : Bytes
  started : Bool
  deriving DecidableEq

structure ResetRequest where
  workflowId : Bytes
  runId : Bytes
  requestId : Bytes
  reason : Bytes
  workflowTaskFinishEventId : Int
  deriving DecidableEq

structure ResetResponse where
  workflowId : Bytes
  runId : Bytes
  deriving DecidableEq

inductive Fault
  -- "client is shut down"
  | shutDown
  -- "start request ID was already used for different start data"
  | startRequestReused
  | alreadyStarted (endpointNamespace workflowId existingRunId : Bytes)
  -- "reset workflow-task finish event ID must be greater than 1"
  | resetEventId
  -- "reset request ID was already used for different reset data"
  | resetRequestReused
  -- "workflow execution was not started"
  | notStarted
  -- "workflow run id does not match the started run"
  | runMismatch
  deriving DecidableEq

structure MockStart (R : Type) where
  request : StartRequest R
  response : StartResponse

structure MockReset where
  request : ResetRequest
  response : ResetResponse

structure Service (R : Type) where
  endpointNamespace : Bytes
  nextRun : Nat
  runs : List Execution
  executions : Bytes → Option Nat
  history : List ((Bytes × Bytes) × Nat)
  startRequests : Bytes × Bytes → Option (MockStart R)
  resetRequests : Bytes × Bytes → Option MockReset

inductive WaitOutcome
  | completed (payload : Protocol.Payload) (successor : Option Successor)
  | continuedAsNew (successor : Successor)
  | cancelled
  | terminated
  | failed (error : OcamlTemporal.Error) (successor : Option Successor)
  | timedOut (error : OcamlTemporal.Error) (successor : Option Successor)
  deriving DecidableEq

def unitNullPayload : Protocol.Payload := ⟨[(text "encoding", text "binary/null")], []⟩

def mockWorkflowInput : List Protocol.Payload → Protocol.Payload
  | [] => unitNullPayload
  | payload :: _ => payload

def mockRunId (n : Nat) : Bytes := text "mock-run-" ++ decimal n

def mockSelectsRun (runId : Bytes) (execution : Execution) : Bool :=
  runId = [] || execution.runId = runId

namespace Service

variable {R : Type}

def initial (endpointNamespace : Bytes) : Service R where
  endpointNamespace := endpointNamespace
  nextRun := 0
  runs := []
  executions _ := none
  history := []
  startRequests _ := none
  resetRequests _ := none

def read (s : Service R) (ref : Nat) : Option (Nat × Execution) := (s.runs[ref]?).map (ref, ·)

def current (s : Service R) (workflowId : Bytes) : Option (Nat × Execution) :=
  (s.executions workflowId).bind s.read

def setTerminal (s : Service R) (ref : Nat) (terminal : Terminal) : Service R :=
  { s with runs := s.runs.modify ref fun execution => { execution with terminal } }

/-- The new record, `Hashtbl.replace service.executions` and `Hashtbl.add service.history`. The key
is not in the history, so that `Hashtbl.replace` does the same there. -/
def addRun (s : Service R) (workflowId : Bytes) (execution : Execution) : Service R :=
  { s with
    runs := s.runs ++ [execution]
    executions := Function.update s.executions workflowId (some s.runs.length)
    history := ((workflowId, execution.runId), s.runs.length) :: s.history }

def mockStartNewRun (s : Service R) (request : StartRequest R) :
    Service R × Except Fault StartResponse :=
  let s := { s with nextRun := s.nextRun + 1 }
  let runId := mockRunId s.nextRun
  let s := s.addRun request.workflowId
    ⟨runId, request.workflowName, request.taskQueue, mockWorkflowInput request.input, .pending⟩
  let response : StartResponse := ⟨request.workflowId, runId, true⟩
  match request.requestId with
  | none => (s, .ok response)
  | some requestId =>
    let key := (request.workflowId, requestId)
    ({ s with startRequests := Function.update s.startRequests key (some ⟨request, response⟩) },
      .ok response)

/-- The start of a request whose identifier is not in the ledger. -/
def mockStartFresh (s : Service R) (request : StartRequest R) :
    Service R × Except Fault StartResponse :=
  let reject (execution : Execution) : Service R × Except Fault StartResponse :=
    (s, .error (.alreadyStarted s.endpointNamespace request.workflowId execution.runId))
  match s.current request.workflowId with
  | some (ref, existing) =>
    if existing.terminal = .pending then
      match request.idConflictPolicy with
      | .fail => reject existing
      | .useExisting => (s, .ok ⟨request.workflowId, existing.runId, false⟩)
      | .terminateExisting => (s.setTerminal ref .terminated).mockStartNewRun request
    else
      match request.idReusePolicy, existing.terminal with
      | .rejectDuplicate, _ => reject existing
      | .allowDuplicateFailedOnly, .completed => reject existing
      | .allowDuplicateFailedOnly, .completedWithSuccessor _ => reject existing
      | _, _ => s.mockStartNewRun request
  | none => s.mockStartNewRun request

def mockClientStart [DecidableEq R] (closed : Bool) (request : StartRequest R) (s : Service R) :
    Service R × Except Fault StartResponse :=
  if closed then (s, .error .shutDown)
  else
    match request.requestId.bind fun requestId =>
      s.startRequests (request.workflowId, requestId) with
    | some previous =>
      if previous.request = request then (s, .ok previous.response)
      else (s, .error .startRequestReused)
    | none => s.mockStartFresh request

def mockFindRun (s : Service R) (workflowId runId : Bytes) : Option (Nat × Execution) :=
  match (s.current workflowId).filter fun found => mockSelectsRun runId found.2 with
  | some found => some found
  | none => if runId = [] then none else (s.history.lookup (workflowId, runId)).bind s.read

/-- What a wait makes of a terminal state that is not pending. -/
def waitOutcome (execution : Execution) : Terminal → WaitOutcome
  | .pending | .completed => .completed execution.input none
  | .completedWithSuccessor successor => .completed execution.input (some successor)
  | .continuedAsNew successor => .continuedAsNew successor
  | .cancelled => .cancelled
  | .terminated => .terminated
  | .failed error successor => .failed error successor
  | .timedOut error successor => .timedOut error successor

def mockClientWait (closed : Bool) (workflowId runId : Bytes) (s : Service R) :
    Service R × Except Fault WaitOutcome :=
  if closed then (s, .error .shutDown)
  else
    match s.mockFindRun workflowId runId with
    | none => (s, .error .runMismatch)
    | some (ref, execution) =>
      -- The first wait completes a pending run.
      (if execution.terminal = .pending then s.setTerminal ref .completed else s,
        .ok (waitOutcome execution execution.terminal))

/-- The body that `mock_client_cancel` and `mock_client_terminate` share. -/
def mockClose (terminal : Terminal) (closed : Bool) (workflowId runId : Bytes) (s : Service R) :
    Service R × Except Fault Unit :=
  if closed then (s, .error .shutDown)
  else
    match s.current workflowId with
    | none => (s, .error .notStarted)
    | some (ref, execution) =>
      if !mockSelectsRun runId execution then (s, .error .runMismatch)
      else (if execution.terminal = .pending then s.setTerminal ref terminal else s, .ok ())

def mockClientCancel : Bool → Bytes → Bytes → Service R → Service R × Except Fault Unit :=
  mockClose .cancelled

def mockClientTerminate : Bool → Bytes → Bytes → Service R → Service R × Except Fault Unit :=
  mockClose .terminated

/-- Terminates the current run of a workflow if it is pending. -/
def closeCurrent (s : Service R) (workflowId : Bytes) : Service R :=
  match s.current workflowId with
  | some (ref, current) => if current.terminal = .pending then s.setTerminal ref .terminated else s
  | none => s

def mockResetRun (s : Service R) (request : ResetRequest) (execution : Execution) :
    Service R × Except Fault ResetResponse :=
  let s := s.closeCurrent request.workflowId
  let s := { s with nextRun := s.nextRun + 1 }
  let runId := mockRunId s.nextRun
  let s := s.addRun request.workflowId
    ⟨runId, execution.workflowType, execution.taskQueue, execution.input, .pending⟩
  let response : ResetResponse := ⟨request.workflowId, runId⟩
  let key := (request.workflowId, request.requestId)
  ({ s with resetRequests := Function.update s.resetRequests key (some ⟨request, response⟩) },
    .ok response)

def mockClientReset (closed : Bool) (request : ResetRequest) (s : Service R) :
    Service R × Except Fault ResetResponse :=
  if closed then (s, .error .shutDown)
  else if request.workflowTaskFinishEventId ≤ 1 then (s, .error .resetEventId)
  else
    match s.resetRequests (request.workflowId, request.requestId) with
    | some previous =>
      if previous.request = request then (s, .ok previous.response)
      else (s, .error .resetRequestReused)
    | none =>
      match s.mockFindRun request.workflowId request.runId with
      | none =>
        (s, .error (if (s.executions request.workflowId).isSome then .runMismatch else .notStarted))
      | some (_, execution) => s.mockResetRun request execution

end Service

inductive Call (R : Type)
  | start (request : StartRequest R)
  | wait (workflowId runId : Bytes)
  | cancel (workflowId runId : Bytes)
  | terminate (workflowId runId : Bytes)
  | reset (request : ResetRequest)

/-- The state after a call of a client that is closed or not. -/
def Service.call {R : Type} [DecidableEq R] (s : Service R) (closed : Bool) : Call R → Service R
  | .start request => (s.mockClientStart closed request).1
  | .wait workflowId runId => (s.mockClientWait closed workflowId runId).1
  | .cancel workflowId runId => (s.mockClientCancel closed workflowId runId).1
  | .terminate workflowId runId => (s.mockClientTerminate closed workflowId runId).1
  | .reset request => (s.mockClientReset closed request).1

/-- Calls of any clients in any order, of closed clients too. A call is atomic, as the source makes
it under the service's mutex. -/
def system (R : Type) [DecidableEq R] : Lib.Transitions (Service R) (Bool × Call R) where
  start s := ∃ endpointNamespace, s = Service.initial endpointNamespace
  step l s := some (s.call l.1 l.2)

end OcamlTemporal.Mock
