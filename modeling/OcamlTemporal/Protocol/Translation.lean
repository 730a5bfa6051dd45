import Mathlib.Logic.Function.Basic
import OcamlTemporal.Base.Error
import OcamlTemporal.Protocol.Durations

/-!
# OcamlTemporal.Protocol.Translation

The translation of an activation into jobs of the runtime (`runtime_job` and `translate_activation`
of `lib/runtime/native_execution.ml`). The canonical encoder that checks the activation first is a
parameter.

The error of a failed operation is modelled as the failure it is built from, with the category it is
given; payloads are copied, so both sides have one type.
-/

namespace OcamlTemporal.Protocol.Translation

open Codec (invalid sub)
open Durations (validateSequence millisecondsOfDuration)

/-! ## Checks -/

def validateIdentifier (path value : Bytes) : Except Control.Error Unit :=
  if value.length = 0 then .error (invalid path "identifier must not be empty")
  else if value.contains 0 then .error (invalid path "identifier must not contain NUL")
  else if value.length > 65536 then .error (invalid path "identifier exceeds 65536 bytes")
  else if !validUtf8 value then .error (invalid path "identifier must be valid UTF-8")
  else .ok ()

def validateBoundedText (path value : Bytes) : Except Control.Error Unit :=
  if value.length > 65536 then .error (invalid path "text exceeds 65536 bytes")
  else if value.contains 0 then .error (invalid path "text must not contain NUL")
  else if !validUtf8 value then .error (invalid path "text must be valid UTF-8")
  else .ok ()

/-- The keys of a header (`headers_loop`); its payloads are always translated. -/
def validateHeaders (path : Bytes) : PayloadMap → Except Control.Error Unit
  | [] => .ok ()
  | (key, _) :: rest => do
    validateIdentifier (sub path "headers.key") key
    validateHeaders path rest

/-! ## Jobs -/

/-- What the error of a failed operation is built from. -/
inductive RuntimeError
  | ofFailure (category : Category) (failure : Failure)
  | startFailed (workflowId workflowType : Bytes) (cause : ChildWorkflowStartFailureCause)

/-- The payload of an operation that completed without a result. -/
def nullRuntimePayload : Payload :=
  { metadata := [(text "encoding", text "binary/null")], data := [] }

inductive RuntimeJob
  | startWorkflow
  | resolveActivity (seq : Int64) (result : Except RuntimeError Payload)
  | resolveLocalActivityBackoff (seq attempt backoffMilliseconds : Int64)
      (originalScheduleTime : Option Timestamp)
  | resolveChildWorkflowStart (seq : Int64) (result : Except RuntimeError Bytes)
  | resolveChildWorkflow (seq : Int64) (result : Except RuntimeError Payload)
  | resolveSignalExternalWorkflow (seq : Int64) (result : Except RuntimeError Unit)
  | resolveRequestCancelExternalWorkflow (seq : Int64) (result : Except RuntimeError Unit)
  | queryWorkflow (queryId queryType : Bytes) (arguments : List Payload) (headers : PayloadMap)
  | doUpdate (id protocolInstanceId name : Bytes) (input : List Payload) (headers : PayloadMap)
      (identity updateId : Bytes) (runValidator : Bool)
  | signalWorkflow (signalName : Bytes) (input : List Payload) (identity : Bytes)
      (headers : PayloadMap)
  | notifyHasPatch (patchId : Bytes)
  | updateRandomSeed (randomnessSeed : Bytes)
  | fireTimer (seq : Int64)
  | cancelWorkflow
  | removeFromCache

/-- Operation families that may consume a sequence number. -/
inductive SequenceKind
  | activity
  | childStart
  | childResult
  | externalSignal
  | externalCancel
  | timer
  deriving DecidableEq, Repr

structure Initialization where
  workflowId : Bytes
  workflowType : Bytes
  arguments : List Payload
  randomnessSeed : Bytes
  attempt : Int
  context : Option InitializeContext

structure CacheRemoval where
  message : Bytes
  reason : EvictionReason

/-- What `runtime_job` returns: the job, and what the runtime's jobs have no room for. -/
structure Translated where
  runtime : RuntimeJob
  initialization : Option Initialization := none
  cancellationReason : Option Bytes := none
  cacheRemoval : Option CacheRemoval := none
  sequence : Option (SequenceKind × Int64) := none

def runtimeActivityResult (path : Bytes) :
    ActivityResolution → Except Control.Error (Except RuntimeError Payload)
  | .completed result => .ok (.ok (result.getD nullRuntimePayload))
  | .failed failure => .ok (.error (.ofFailure .activity failure))
  | .cancelled failure => .ok (.error (.ofFailure .cancelled failure))
  | .backoff .. => .error (invalid path "local activity backoff must be handled as a retry job")

def runtimeChildWorkflowStartResult (path : Bytes) :
    ChildWorkflowStartResolution → Except Control.Error (Except RuntimeError Bytes)
  | .succeeded runId => do
    validateIdentifier (sub path "run_id") runId
    return .ok runId
  | .failed workflowId workflowType cause =>
    .ok (.error (.startFailed workflowId workflowType cause))
  | .cancelled failure => .ok (.error (.ofFailure .cancelled failure))

def runtimeChildWorkflowResult : ChildWorkflowResolution → Except RuntimeError Payload
  | .completed result => .ok (result.getD nullRuntimePayload)
  | .failed failure => .error (.ofFailure .childWorkflow failure)
  | .cancelled failure => .error (.ofFailure .cancelled failure)

def runtimeExternalWorkflowResult : Except Failure Unit → Except RuntimeError Unit
  | .ok () => .ok ()
  | .error failure => .error (.ofFailure .workflow failure)

def runtimeJob (path : Bytes) : ActivationJob → Except Control.Error Translated
  | .initializeWorkflow workflowId workflowType arguments randomnessSeed attempt context => do
    validateIdentifier (sub path "workflow_id") workflowId
    validateIdentifier (sub path "workflow_type") workflowType
    if attempt < 1 then throw (invalid (sub path "attempt") "attempt must be positive")
    else
      return { runtime := .startWorkflow
               initialization := some
                 ⟨workflowId, workflowType, arguments, randomnessSeed, attempt, context⟩ }
  | .resolveActivity seq (.backoff attempt backoffDuration originalScheduleTime) => do
    validateSequence (sub path "seq") seq
    if attempt ≤ 0 then
      throw (invalid (path ++ text ".result.attempt")
        "local activity backoff attempt must be positive")
    else
      let backoffMilliseconds ←
        millisecondsOfDuration (path ++ text ".result.backoff_duration") backoffDuration
      return { runtime := .resolveLocalActivityBackoff seq attempt backoffMilliseconds
                 originalScheduleTime
               sequence := some (.activity, seq) }
  | .resolveActivity seq result => do
    validateSequence (sub path "seq") seq
    let result ← runtimeActivityResult (sub path "result") result
    return { runtime := .resolveActivity seq result, sequence := some (.activity, seq) }
  | .resolveChildWorkflowStart seq result => do
    validateSequence (sub path "seq") seq
    let result ← runtimeChildWorkflowStartResult (sub path "result") result
    return { runtime := .resolveChildWorkflowStart seq result, sequence := some (.childStart, seq) }
  | .resolveChildWorkflow seq result => do
    validateSequence (sub path "seq") seq
    return { runtime := .resolveChildWorkflow seq (runtimeChildWorkflowResult result)
             sequence := some (.childResult, seq) }
  | .resolveSignalExternalWorkflow seq result => do
    validateSequence (sub path "seq") seq
    return { runtime := .resolveSignalExternalWorkflow seq (runtimeExternalWorkflowResult result)
             sequence := some (.externalSignal, seq) }
  | .resolveRequestCancelExternalWorkflow seq result => do
    validateSequence (sub path "seq") seq
    return { runtime := .resolveRequestCancelExternalWorkflow seq
               (runtimeExternalWorkflowResult result)
             sequence := some (.externalCancel, seq) }
  | .queryWorkflow queryId queryType arguments headers => do
    validateIdentifier (sub path "query_id") queryId
    validateIdentifier (sub path "query_type") queryType
    validateHeaders path headers
    return { runtime := .queryWorkflow queryId queryType arguments headers }
  | .doUpdate id protocolInstanceId name input headers updateMeta runValidator => do
    validateIdentifier (sub path "id") id
    validateIdentifier (sub path "protocol_instance_id") protocolInstanceId
    validateIdentifier (sub path "name") name
    validateIdentifier (sub path "meta.update_id") updateMeta.updateId
    validateBoundedText (sub path "meta.identity") updateMeta.identity
    if id ≠ updateMeta.updateId then
      throw (invalid (sub path "meta.update_id") "must match update id")
    else
      validateHeaders path headers
      return { runtime := .doUpdate id protocolInstanceId name input headers updateMeta.identity
                 updateMeta.updateId runValidator }
  | .signalWorkflow signalName input identity headers => do
    validateIdentifier (sub path "signal_name") signalName
    validateBoundedText (sub path "identity") identity
    validateHeaders path headers
    return { runtime := .signalWorkflow signalName input identity headers }
  | .notifyHasPatch patchId => do
    validateIdentifier (sub path "patch_id") patchId
    return { runtime := .notifyHasPatch patchId }
  | .updateRandomSeed randomnessSeed => .ok { runtime := .updateRandomSeed randomnessSeed }
  | .fireTimer seq => do
    validateSequence (sub path "seq") seq
    return { runtime := .fireTimer seq, sequence := some (.timer, seq) }
  | .cancelWorkflow reason => .ok { runtime := .cancelWorkflow, cancellationReason := some reason }
  | .removeFromCache message reason =>
    .ok { runtime := .removeFromCache, cacheRemoval := some ⟨message, reason⟩ }

/-! ## Activations -/

/-- The kinds that each sequence number was seen with, latest first. -/
abbrev Seen := Int64 → Option (List SequenceKind)

/-- The start and the result of a child share a sequence number; nothing else does. -/
def childPairAllowed : SequenceKind → List SequenceKind → Bool
  | .childStart, [.childResult] => true
  | .childResult, [.childStart] => true
  | _, _ => false

def noteSequence (path : Bytes) (seen : Seen) :
    Option (SequenceKind × Int64) → Except Control.Error Seen
  | none => .ok seen
  | some (kind, sequence) =>
    let previous := (seen sequence).getD []
    if previous ≠ [] ∧ !childPairAllowed kind previous then
      .error (invalid (sub path "seq") "duplicate activation sequence for a different operation")
    else if kind ∈ previous then
      .error (invalid (sub path "seq")
        "duplicate activation sequence for the same operation kind")
    else .ok (Function.update seen sequence (some (kind :: previous)))

structure TranslatedActivation where
  runId : Bytes
  timestamp : Option Timestamp
  isReplaying : Bool
  historyLength : Int64
  metadata : Option ActivationMetadata
  initialization : Option Initialization
  cancellationReason : Option Bytes
  cacheRemoval : Option CacheRemoval
  jobs : List RuntimeJob
  source : Activation

def jobPath (index : Nat) : Bytes := text "$.jobs[" ++ Lib.decimal index ++ text "]"

/-- The loop of `translate_activation`; `facts` are its three references, in a record whose jobs are
those translated so far. -/
def translateJobs (seen : Seen) (facts : TranslatedActivation) (index : Nat) :
    List ActivationJob → Except Control.Error TranslatedActivation
  | [] => .ok { facts with jobs := facts.jobs.reverse }
  | job :: rest => do
    let translated ← runtimeJob (jobPath index) job
    let seen ← noteSequence (jobPath index) seen translated.sequence
    translateJobs seen
      { facts with
        initialization := translated.initialization.or facts.initialization
        cancellationReason := translated.cancellationReason.or facts.cancellationReason
        cacheRemoval := translated.cacheRemoval.or facts.cacheRemoval
        jobs := translated.runtime :: facts.jobs }
      (index + 1) rest

def translateActivation (encodeActivation : Activation → Except Control.Error Bytes)
    (value : Activation) : Except Control.Error TranslatedActivation := do
  let _ ← encodeActivation value
  translateJobs (fun _ => none)
    { runId := value.runId
      timestamp := value.timestamp
      isReplaying := value.isReplaying
      historyLength := value.historyLength
      metadata := value.metadata
      initialization := none
      cancellationReason := none
      cacheRemoval := none
      jobs := []
      source := value }
    0 value.jobs

end OcamlTemporal.Protocol.Translation
