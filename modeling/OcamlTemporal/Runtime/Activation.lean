import Mathlib.Data.List.Basic
import OcamlTemporal.Base.Error

/-!
# OcamlTemporal.Runtime.Activation

The jobs Core delivers and the commands returned to it
(`lib/runtime/activation.ml`). Sequence numbers are `Nat`: they are allocated by
counting up from one. Attempts and durations are signed 64-bit in the source and
only compared, so they are `Int`.
-/

namespace OcamlTemporal

structure Timestamp where
  seconds : Int
  nanoseconds : Int
  deriving DecidableEq, Repr

/-- How an activity reacts to workflow cancellation. -/
inductive ActivityCancellationType
  | tryCancel
  | waitCancellationCompleted
  | abandon
  deriving DecidableEq, Repr

/-- What the server does to a child when its parent closes. -/
inductive ParentClosePolicy
  | terminate
  | abandon
  | requestCancel
  deriving DecidableEq, Repr

/-- What the server does when the child's workflow ID belongs to a closed run. -/
inductive IdReusePolicy
  | allowDuplicate
  | allowDuplicateFailedOnly
  | rejectDuplicate
  deriving DecidableEq, Repr

/-- When Core resolves a parent future after a child cancellation request. -/
inductive ChildCancellationType
  | tryCancel
  | waitCancellationCompleted
  | abandon
  | waitCancellationRequested
  deriving DecidableEq, Repr

structure RetryPolicy where
  initialInterval : Int
  backoffCoefficientBits : String
  maximumInterval : Int
  maximumAttempts : Int
  nonRetryableErrorTypes : List String
  deriving DecidableEq, Repr

structure Priority where
  priorityKey : Int
  fairnessKey : String
  fairnessWeightBits : Int
  deriving DecidableEq, Repr

structure Update where
  id : String
  protocolInstanceId : String
  name : String
  input : List Payload
  headers : List (String × Payload)
  identity : String
  updateId : String
  runValidator : Bool
  deriving DecidableEq

inductive Job
  | startWorkflow
  | resolveActivity (seq : Nat) (result : Except Error Payload)
  /-- Core asks the runtime to wait before retrying a local activity; the
  activity's future stays pending. -/
  | resolveLocalActivityBackoff (seq : Nat) (attempt : Int) (backoffMilliseconds : Int)
      (originalScheduleTime : Option Timestamp)
  | resolveChildWorkflowStart (seq : Nat) (result : Except Error String)
  | resolveChildWorkflow (seq : Nat) (result : Except Error Payload)
  | resolveSignalExternalWorkflow (seq : Nat) (result : Except Error Unit)
  | resolveRequestCancelExternalWorkflow (seq : Nat) (result : Except Error Unit)
  | queryWorkflow (queryId : String) (queryType : String) (arguments : List Payload)
      (headers : List (String × Payload))
  | doUpdate (update : Update)
  | signalWorkflow (signalName : String) (input : List Payload) (identity : String)
      (headers : List (String × Payload))
  | notifyHasPatch (patchId : String)
  | updateRandomSeed (randomnessSeed : String)
  | fireTimer (seq : Nat)
  | cancelWorkflow
  | removeFromCache
  deriving DecidableEq

/-- The phases of the update protocol Core is told about. -/
inductive UpdateResponse
  | accepted
  | rejected (error : Error)
  | completed (payload : Payload)
  deriving DecidableEq, Repr

/-- The request fields of a scheduled remote activity. -/
structure ScheduledActivity where
  activityId : String
  activityType : String
  taskQueue : String
  arguments : List Payload
  scheduleToCloseTimeout : Option Int
  scheduleToStartTimeout : Option Int
  startToCloseTimeout : Option Int
  heartbeatTimeout : Option Int
  retryPolicy : Option RetryPolicy
  priority : Option Priority
  cancellationType : ActivityCancellationType
  doNotEagerlyExecute : Bool
  deriving DecidableEq, Repr

/-- The request fields of a local activity that stay the same over its retries. -/
structure ScheduledLocalActivity where
  activityId : String
  activityType : String
  arguments : List Payload
  scheduleToCloseTimeout : Option Int
  scheduleToStartTimeout : Option Int
  startToCloseTimeout : Option Int
  retryPolicy : Option RetryPolicy
  localRetryThreshold : Option Int
  cancellationType : ActivityCancellationType
  deriving DecidableEq, Repr

structure StartedChildWorkflow where
  id : String
  name : String
  input : List Payload
  retryPolicy : Option RetryPolicy
  cancellationType : ChildCancellationType
  taskQueue : Option String
  parentClosePolicy : Option ParentClosePolicy
  executionTimeout : Option Int
  runTimeout : Option Int
  taskTimeout : Option Int
  idReusePolicy : Option IdReusePolicy
  deriving DecidableEq, Repr

inductive Command
  | scheduleActivity (seq : Nat) (request : ScheduledActivity)
  | scheduleLocalActivity (seq : Nat) (attempt : Int)
      (originalScheduleTime : Option Timestamp) (request : ScheduledLocalActivity)
  | startChildWorkflow (seq : Nat) (request : StartedChildWorkflow)
  | cancelChildWorkflow (seq : Nat) (reason : String)
  | signalExternalWorkflow (seq : Nat) (workflowId runId signalName : String)
      (input : List Payload) (childWorkflowOnly : Bool) (headers : List (String × Payload))
  | requestCancelExternalWorkflow (seq : Nat) (workflowId runId reason : String)
  | requestCancelActivity (seq : Nat)
  | requestCancelLocalActivity (seq : Nat)
  | startTimer (seq : Nat) (milliseconds : Int)
  | cancelTimer (seq : Nat)
  | queryResult (queryId : String) (result : Except Error Payload)
  | updateResponse (protocolInstanceId : String) (response : UpdateResponse)
  | setPatchMarker (patchId : String) (deprecated : Bool)
  | upsertSearchAttributes (searchAttributes : List (String × Payload))
  | completeWorkflow (payload : Payload)
  | failWorkflow (error : Error)
  | continueAsNew (workflowType : String) (input : List Payload)
  | cancelWorkflowExecution
  deriving DecidableEq

namespace Command

def isTerminal : Command → Bool
  | completeWorkflow _ | failWorkflow _ | cancelWorkflowExecution | continueAsNew _ _ => true
  | _ => false

/-- The answer to a query, the only command a sealed context still takes. -/
def isQueryResult : Command → Bool
  | queryResult _ _ => true
  | _ => false

theorem not_isQueryResult_of_isTerminal {c : Command} (h : c.isTerminal = true) :
    c.isQueryResult = false := by
  cases c <;> simp_all [isTerminal, isQueryResult]

end Command

def Job.isQuery : Job → Bool
  | .queryWorkflow _ _ _ _ => true
  | _ => false

end OcamlTemporal
