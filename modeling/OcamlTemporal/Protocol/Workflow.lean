import OcamlTemporal.Protocol.Values

/-!
# OcamlTemporal.Protocol.Workflow

Workflow activations and workflow completions, as `lib/protocol/workflow_protocol.ml`
declares them. An activation carries the jobs that Core wants a run to handle, a
completion the commands that the run answers with.
-/

namespace OcamlTemporal.Protocol

/-- A point in time in seconds and nanoseconds since the epoch. -/
structure Timestamp where
  seconds : Int64
  nanoseconds : Int
  deriving DecidableEq, Repr

structure WorkflowExecution where
  workflowId : Bytes
  runId : Bytes
  deriving DecidableEq, Repr

structure NamespacedWorkflowExecution where
  «namespace» : Bytes
  workflowId : Bytes
  runId : Bytes
  deriving DecidableEq, Repr

structure WorkflowPriority where
  priorityKey : Int
  fairnessKey : Bytes
  fairnessWeightBits : Int64
  deriving DecidableEq, Repr

/-- Who asked for an update; the nested id repeats the one of the update. -/
structure UpdateMeta where
  identity : Bytes
  updateId : Bytes
  deriving DecidableEq, Repr

structure WorkerDeploymentVersion where
  deploymentName : Bytes
  buildId : Bytes
  deriving DecidableEq, Repr

inductive SuggestContinueAsNewReason
  | unspecified
  | historySizeTooLarge
  | tooManyHistoryEvents
  | tooManyUpdates
  deriving DecidableEq, Repr

structure ActivationMetadata where
  availableInternalFlags : List Int64
  historySizeBytes : Bytes
  continueAsNewSuggested : Bool
  deploymentVersionForCurrentTask : Option WorkerDeploymentVersion
  lastSdkVersion : Bytes
  suggestContinueAsNewReasons : List SuggestContinueAsNewReason
  targetWorkerDeploymentVersionChanged : Bool
  deriving DecidableEq, Repr

inductive ContinueAsNewInitiator
  | unspecified
  | workflow
  | retry
  | cronSchedule
  deriving DecidableEq, Repr

structure RetryPolicy where
  initialInterval : Duration
  backoffCoefficientBits : Bytes
  maximumInterval : Duration
  maximumAttempts : Int
  nonRetryableErrorTypes : List Bytes
  deriving DecidableEq, Repr

structure Continuation where
  continuedFromExecutionRunId : Bytes
  initiator : ContinueAsNewInitiator
  continuedFailure : Option Failure
  lastCompletionResult : Option (List Payload)

abbrev PayloadMap := List (Bytes × Payload)

structure InitializeContext where
  headers : PayloadMap
  memo : Option PayloadMap
  searchAttributes : Option PayloadMap
  workflowExecutionExpirationTime : Option Timestamp
  firstWorkflowTaskBackoff : Option Duration
  identity : Bytes
  parentWorkflow : Option NamespacedWorkflowExecution
  workflowExecutionTimeout : Option Duration
  workflowRunTimeout : Option Duration
  workflowTaskTimeout : Option Duration
  firstExecutionRunId : Bytes
  startTime : Option Timestamp
  rootWorkflow : Option WorkflowExecution
  priority : Option WorkflowPriority
  retryPolicy : Option RetryPolicy
  continuation : Option Continuation

inductive ActivityResolution
  | completed (result : Option Payload)
  | failed (failure : Failure)
  | cancelled (failure : Failure)
  -- a local activity is to be retried after a workflow timer
  | backoff (attempt : Int64) (backoffDuration : Duration) (originalScheduleTime : Option Timestamp)

inductive ChildWorkflowStartFailureCause
  | unspecified
  | workflowAlreadyExists
  deriving DecidableEq, Repr

inductive ChildWorkflowStartResolution
  | succeeded (runId : Bytes)
  | failed (workflowId workflowType : Bytes) (cause : ChildWorkflowStartFailureCause)
  | cancelled (failure : Failure)

inductive ChildWorkflowResolution
  | completed (result : Option Payload)
  | failed (failure : Failure)
  | cancelled (failure : Failure)

inductive EvictionReason
  | unspecified
  | cacheFull
  | cacheMiss
  | nondeterminism
  | langFail
  | langRequested
  | taskNotFound
  | unhandledCommand
  | fatal
  | paginationOrHistoryFetch
  | workflowExecutionEnding
  deriving DecidableEq, Repr

inductive ActivationJob
  | initializeWorkflow (workflowId workflowType : Bytes) (arguments : List Payload)
      (randomnessSeed : Bytes) (attempt : Int) (context : Option InitializeContext)
  | resolveActivity (seq : Int64) (result : ActivityResolution)
  | resolveChildWorkflowStart (seq : Int64) (result : ChildWorkflowStartResolution)
  | resolveChildWorkflow (seq : Int64) (result : ChildWorkflowResolution)
  | resolveSignalExternalWorkflow (seq : Int64) (result : Except Failure Unit)
  | resolveRequestCancelExternalWorkflow (seq : Int64) (result : Except Failure Unit)
  | queryWorkflow (queryId queryType : Bytes) (arguments : List Payload) (headers : PayloadMap)
  | doUpdate (id protocolInstanceId name : Bytes) (input : List Payload) (headers : PayloadMap)
      (updateMeta : UpdateMeta) (runValidator : Bool)
  | signalWorkflow (signalName : Bytes) (input : List Payload) (identity : Bytes)
      (headers : PayloadMap)
  | notifyHasPatch (patchId : Bytes)
  | updateRandomSeed (randomnessSeed : Bytes)
  | fireTimer (seq : Int64)
  | cancelWorkflow (reason : Bytes)
  | removeFromCache (message : Bytes) (reason : EvictionReason)

structure Activation where
  runId : Bytes
  timestamp : Option Timestamp
  isReplaying : Bool
  historyLength : Int64
  jobs : List ActivationJob
  metadata : Option ActivationMetadata

inductive ActivityCancellationType
  | tryCancel
  | waitCancellationCompleted
  | abandon
  deriving DecidableEq, Repr

inductive ParentClosePolicy
  | terminate
  | abandon
  | requestCancel
  deriving DecidableEq, Repr

inductive IdReusePolicy
  | allowDuplicate
  | allowDuplicateFailedOnly
  | rejectDuplicate
  deriving DecidableEq, Repr

inductive ChildCancellationType
  | tryCancel
  | waitCancellationCompleted
  | abandon
  | waitCancellationRequested
  deriving DecidableEq, Repr

inductive QueryResult
  | succeeded (result : Payload)
  | failed (failure : Failure)

inductive UpdateResponse
  | accepted
  | rejected (failure : Failure)
  | completed (result : Payload)

inductive CompletionCommand
  | scheduleActivity (seq : Int64) (activityId activityType taskQueue : Bytes)
      (arguments : List Payload) (scheduleToCloseTimeout scheduleToStartTimeout
        startToCloseTimeout heartbeatTimeout : Option Duration)
      (retryPolicy : Option RetryPolicy) (priority : Option WorkflowPriority)
      (cancellationType : ActivityCancellationType) (doNotEagerlyExecute : Bool)
  | scheduleLocalActivity (seq : Int64) (activityId activityType : Bytes) (attempt : Int64)
      (originalScheduleTime : Option Timestamp) (arguments : List Payload)
      (scheduleToCloseTimeout scheduleToStartTimeout startToCloseTimeout : Option Duration)
      (retryPolicy : Option RetryPolicy) (localRetryThreshold : Option Duration)
      (cancellationType : ActivityCancellationType)
  | startChildWorkflow (taskQueue : Option Bytes) (parentClosePolicy : Option ParentClosePolicy)
      (seq : Int64) (workflowId workflowType : Bytes) (input : List Payload)
      (retryPolicy : Option RetryPolicy) (cancellationType : ChildCancellationType)
      (executionTimeout runTimeout taskTimeout : Option Duration)
      (idReusePolicy : Option IdReusePolicy)
  | cancelChildWorkflow (seq : Int64) (reason : Bytes)
  | signalExternalWorkflow (seq : Int64) (workflowId runId signalName : Bytes)
      (input : List Payload) (childWorkflowOnly : Bool) (headers : PayloadMap)
  | requestCancelExternalWorkflow (seq : Int64) (workflowId runId reason : Bytes)
  | requestCancelActivity (seq : Int64)
  | requestCancelLocalActivity (seq : Int64)
  | startTimer (seq : Int64) (startToFireTimeout : Duration)
  | cancelTimer (seq : Int64)
  | queryResult (queryId : Bytes) (result : QueryResult)
  | updateResponse (protocolInstanceId : Bytes) (response : UpdateResponse)
  | setPatchMarker (patchId : Bytes) («deprecated» : Bool)
  | upsertSearchAttributes (searchAttributes : PayloadMap)
  | completeWorkflow (result : Option Payload)
  | failWorkflow (failure : Failure)
  | continueAsNew (workflowType : Bytes) (input : List Payload)
  | cancelWorkflowExecution

inductive VersioningBehavior
  | pinned
  | autoUpgrade
  deriving DecidableEq, Repr

/-- A completion; with a `taskFailure` it fails the workflow task and carries no
commands. -/
structure Completion where
  runId : Bytes
  commands : List CompletionCommand
  taskFailure : Option Failure
  versioningBehavior : Option VersioningBehavior

end OcamlTemporal.Protocol
