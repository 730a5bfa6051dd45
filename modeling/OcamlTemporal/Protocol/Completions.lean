import Mathlib
import OcamlTemporal.Protocol.Codec
import OcamlTemporal.Protocol.Workflow

/-!
# OcamlTemporal.Protocol.Completions

Activations as they are decoded, completions as they are encoded (`activation_from_json` and
`encode_completion` of `lib/protocol/workflow_protocol.ml`), and the check of a completion against
the activation that it answers (`validate_completion_for_activation` of
`lib/runtime/native_execution.ml`).

The codecs of a single job, of the metadata and of a single command are parameters: the rules that
bind the jobs of an activation, or the commands of a completion, to one another are what is modelled
here.
-/

namespace OcamlTemporal.Protocol.Completions

open Lib (Json)
open Codec (Decoder invalid sub exactObject member optionalFields)

def root : Bytes := text "$"

/-- The fold with `List.mem` that rejects an identifier seen before. -/
def hasDuplicate (seen : List Bytes) : List Bytes → Bool
  | [] => false
  | id :: rest => seen.contains id || hasDuplicate (id :: seen) rest

/-! ## Activations -/

def isRemoveFromCache : ActivationJob → Bool
  | .removeFromCache _ _ => true
  | _ => false

def queryId? : ActivationJob → Option Bytes
  | .queryWorkflow queryId _ _ _ => some queryId
  | _ => none

def validateEvictionJobs (path : Bytes) (jobs : List ActivationJob) : Except Control.Error Unit :=
  match jobs.filter isRemoveFromCache with
  | [] => .ok ()
  | [_] =>
    if jobs.length = 1 then .ok ()
    else .error (invalid path "cache eviction must be the activation's only job")
  | _ => .error (invalid path "cache eviction must be the activation's only job")

def validateInitializeLoop (path : Bytes) (index : Nat) (seen : Bool) :
    List ActivationJob → Except Control.Error Unit
  | [] => .ok ()
  | .initializeWorkflow _ _ _ _ _ _ :: rest =>
    if seen || index ≠ 0 then
      .error (invalid path "initialize_workflow must occur at most once and first")
    else validateInitializeLoop path (index + 1) true rest
  | _ :: rest => validateInitializeLoop path (index + 1) seen rest

def validateInitializeJobs (path : Bytes) : List ActivationJob → Except Control.Error Unit :=
  validateInitializeLoop path 0 false

def validateQueryJobsLoop (path : Bytes) (seen : List Bytes) :
    List ActivationJob → Except Control.Error Unit
  | [] => .ok ()
  | job :: rest =>
    match queryId? job with
    | some queryId =>
      if seen.contains queryId then .error (invalid (sub path "query_id") "duplicate query ID")
      else validateQueryJobsLoop path (queryId :: seen) rest
    | none => .error (invalid path "query activation contains a non-query job")

def validateQueryJobs (path : Bytes) (jobs : List ActivationJob) : Except Control.Error Unit :=
  let queryCount := jobs.countP fun job => (queryId? job).isSome
  if queryCount = 0 then .ok ()
  else if queryCount ≠ jobs.length then
    .error (invalid path "query_workflow jobs must be the activation's only jobs")
  else validateQueryJobsLoop path [] jobs

def validateUpdateJobsLoop (path : Bytes) (seenIds seenProtocols : List Bytes) :
    List ActivationJob → Except Control.Error Unit
  | [] => .ok ()
  | .doUpdate id protocolInstanceId _ _ _ updateMeta _ :: rest =>
    if seenIds.contains id then .error (invalid (sub path "id") "duplicate update ID")
    else if seenProtocols.contains protocolInstanceId then
      .error (invalid (sub path "protocol_instance_id") "duplicate update protocol ID")
    else if id ≠ updateMeta.updateId then
      .error (invalid (sub path "meta.update_id") "must match update id")
    else validateUpdateJobsLoop path (id :: seenIds) (protocolInstanceId :: seenProtocols) rest
  | _ :: rest => validateUpdateJobsLoop path seenIds seenProtocols rest

def validateUpdateJobs (path : Bytes) : List ActivationJob → Except Control.Error Unit :=
  validateUpdateJobsLoop path [] []

def validateActivationTimestamp (path : Bytes) (timestamp : Option Timestamp)
    (jobs : List ActivationJob) : Except Control.Error Unit :=
  match timestamp, jobs with
  | some _, _ => .ok ()
  | none, [.removeFromCache _ _] => .ok ()
  | none, _ => .error (invalid path "timestamp may be null only for cache eviction")

def activationFromJson (activationJob : Decoder ActivationJob)
    (activationMetadata : Decoder ActivationMetadata) (json : Json) :
    Except Control.Error Activation := do
  let rawEntries := match json with
    | .obj entries => entries
    | _ => []
  let hasMetadata := (rawEntries.lookup (text "metadata")).isSome
  let entries ← exactObject root
    (["run_id", "timestamp", "is_replaying", "history_length", "jobs"] ++
    if hasMetadata then ["metadata"] else []) json
  let runId ← member root "run_id" entries Codec.identifier
  let timestamp ← member root "timestamp" entries (Codec.nullable Codec.timestamp)
  let isReplaying ← member root "is_replaying" entries Codec.bool
  let historyLength ← member root "history_length" entries Codec.uint32
  let jobs ← member root "jobs" entries (Codec.list activationJob)
  validateEvictionJobs (sub root "jobs") jobs
  validateInitializeJobs (sub root "jobs") jobs
  validateQueryJobs (sub root "jobs") jobs
  validateUpdateJobs (sub root "jobs") jobs
  validateActivationTimestamp (sub root "timestamp") timestamp jobs
  let metadata ← (if hasMetadata then some <$> member root "metadata" entries activationMetadata
    else pure none)
  return { runId, timestamp, isReplaying, historyLength, jobs, metadata }

/-! ## Completions -/

def resultId? : CompletionCommand → Option Bytes
  | .queryResult queryId _ => some queryId
  | _ => none

def terminal : CompletionCommand → Bool
  | .completeWorkflow _ | .failWorkflow _ | .continueAsNew _ _ | .cancelWorkflowExecution => true
  | _ => false

def validateTerminalOrder (path : Bytes) : List CompletionCommand → Except Control.Error Unit
  | [] => .ok ()
  | command :: rest =>
    if terminal command then
      if rest.isEmpty then .ok ()
      else .error (invalid path "terminal workflow command must be last")
    else validateTerminalOrder path rest

def validateQueryResultsLoop (path : Bytes) (seen : List Bytes) :
    List CompletionCommand → Except Control.Error Unit
  | [] => .ok ()
  | command :: rest =>
    match resultId? command with
    | some queryId =>
      if seen.contains queryId then .error (invalid (sub path "query_id") "duplicate query ID")
      else validateQueryResultsLoop path (queryId :: seen) rest
    | none => .error (invalid path "query completion contains a non-query command")

def validateQueryResults (path : Bytes) (commands : List CompletionCommand) :
    Except Control.Error Unit :=
  let queryCount := commands.countP fun command => (resultId? command).isSome
  if queryCount = 0 then .ok ()
  else if queryCount ≠ commands.length then
    .error (invalid path "query_result commands must be the completion's only commands")
  else validateQueryResultsLoop path [] commands

/-- What an update has been answered so far: accepted, and with a last response. -/
abbrev Phases := List (Bytes × Bool × Bool)

def updatePhase (path : Bytes) (phase : Bool × Bool) :
    UpdateResponse → Except Control.Error (Bool × Bool)
  | .accepted =>
    if phase.1 || phase.2 then
      .error (invalid (sub path "protocol_instance_id")
        "update acceptance must be the first response and may appear once")
    else .ok (true, phase.2)
  | .rejected _ =>
    if phase.2 then
      .error (invalid (sub path "protocol_instance_id")
        "update rejection may appear once and must be terminal")
    else .ok (phase.1, true)
  | .completed _ =>
    if phase.2 then
      .error (invalid (sub path "protocol_instance_id") "update completion may appear once")
    else .ok (phase.1, true)

def validateUpdateResponsesLoop (path : Bytes) (phases : Phases) :
    List CompletionCommand → Except Control.Error Unit
  | [] => .ok ()
  | .updateResponse protocolInstanceId response :: rest => do
    let phase ← updatePhase path ((phases.lookup protocolInstanceId).getD (false, false)) response
    validateUpdateResponsesLoop path
      ((protocolInstanceId, phase) :: phases.eraseP fun entry => entry.1 = protocolInstanceId) rest
  | _ :: rest => validateUpdateResponsesLoop path phases rest

def validateUpdateResponses (path : Bytes) : List CompletionCommand → Except Control.Error Unit :=
  validateUpdateResponsesLoop path []

def validatePatchMarkerModesLoop (path : Bytes) (modes : List (Bytes × Bool)) :
    List CompletionCommand → Except Control.Error Unit
  | [] => .ok ()
  | .setPatchMarker patchId isDeprecated :: rest =>
    match modes.lookup patchId with
    | some existing =>
      if existing ≠ isDeprecated then
        .error (invalid (sub path "patch_id")
          "one patch ID cannot use both active and deprecated marker modes")
      else validatePatchMarkerModesLoop path modes rest
    | none => validatePatchMarkerModesLoop path ((patchId, isDeprecated) :: modes) rest
  | _ :: rest => validatePatchMarkerModesLoop path modes rest

def validatePatchMarkerModes (path : Bytes) : List CompletionCommand → Except Control.Error Unit :=
  validatePatchMarkerModesLoop path []

def versioningBehavior (entries : List (Bytes × Json)) :
    Except Control.Error (Option VersioningBehavior) :=
  match entries.lookup (text "versioning_behavior") with
  | none | some .null => .ok none
  | some (.str value) =>
    if value = text "pinned" then .ok (some .pinned)
    else if value = text "auto_upgrade" then .ok (some .autoUpgrade)
    else .error (invalid (sub root "versioning_behavior")
      "versioning_behavior must be pinned or auto_upgrade")
  | some _ => .error (invalid (sub root "versioning_behavior")
      "versioning_behavior must be pinned or auto_upgrade")

def taskFailure (entries : List (Bytes × Json)) : Except Control.Error (Option Failure) :=
  match entries.lookup (text "task_failure") with
  | none | some .null => .ok none
  | some value => some <$> Codec.failure (sub root "task_failure") value

def completionFromJson (completionCommand : Decoder CompletionCommand) (json : Json) :
    Except Control.Error Protocol.Completion := do
  let fields := match json with
    | .obj entries =>
      ["run_id", "commands"] ++ optionalFields ["task_failure", "versioning_behavior"] entries
    | _ => ["run_id", "commands"]
  let entries ← exactObject root fields json
  let runId ← member root "run_id" entries Codec.identifier
  let commands ← member root "commands" entries (Codec.list completionCommand)
  validateTerminalOrder (sub root "commands") commands
  validateQueryResults (sub root "commands") commands
  validateUpdateResponses (sub root "commands") commands
  validatePatchMarkerModes (sub root "commands") commands
  let taskFailure ← taskFailure entries
  let versioningBehavior ← versioningBehavior entries
  if taskFailure.isSome && !commands.isEmpty then
    throw (invalid (sub root "commands") "failed workflow task cannot contain commands")
  else if taskFailure.isSome && versioningBehavior.isSome then
    throw (invalid (sub root "versioning_behavior")
      "a failed workflow task cannot carry a versioning behavior")
  else return { runId, taskFailure, commands, versioningBehavior }

def completionCommandsJson (completionCommandJson : CompletionCommand → Except Control.Error Json) :
    List CompletionCommand → Except Control.Error (List Json)
  | [] => .ok []
  | command :: rest => do
    let command ← completionCommandJson command
    let rest ← completionCommandsJson completionCommandJson rest
    return command :: rest

def taskFailureField : Option Failure → Except Control.Error (List (Bytes × Json))
  | none => .ok []
  | some value => do
    let failure ← Codec.failureJson value
    return [(text "task_failure", failure)]

def versioningField : Option VersioningBehavior → List (Bytes × Json)
  | none => []
  | some .pinned => [(text "versioning_behavior", .str (text "pinned"))]
  | some .autoUpgrade => [(text "versioning_behavior", .str (text "auto_upgrade"))]

/-- `encode_completion`, which applies the rules of the decoder to the tree it has built. -/
def encodeCompletion (completionCommandJson : CompletionCommand → Except Control.Error Json)
    (completionCommand : Decoder CompletionCommand) (value : Protocol.Completion) :
    Except Control.Error Bytes := do
  let commands ← completionCommandsJson completionCommandJson value.commands
  let fields ← taskFailureField value.taskFailure
  let json := Json.obj ([(text "run_id", .str value.runId), (text "commands", .arr commands)] ++
    (fields ++ versioningField value.versioningBehavior))
  let output ← Control.encodePayloadObject json
  let _ ← completionFromJson completionCommand json
  return output

/-! ## The completion of an activation -/

/-- `List.sort String.compare`: bytes are compared as unsigned numbers. -/
def sortIds (ids : List Bytes) : List Bytes :=
  ids.insertionSort fun a b => a.map UInt8.toNat ≤ b.map UInt8.toNat

def validateCompletionForActivation (activation : Activation) (completion : Protocol.Completion) :
    Except Control.Error Unit :=
  let queryIds := activation.jobs.filterMap queryId?
  let resultIds := completion.commands.filterMap resultId?
  if queryIds = [] then
    if resultIds = [] then .ok ()
    else .error (invalid (sub root "commands") "query result command requires a query activation")
  else if queryIds.length ≠ activation.jobs.length then
    .error (invalid (sub root "jobs") "query activation cannot contain ordinary workflow jobs")
  else if hasDuplicate [] queryIds then
    .error (invalid (sub root "jobs") "query activation contains a duplicate query ID")
  else if hasDuplicate [] resultIds then
    .error (invalid (sub root "commands") "query completion contains a duplicate query ID")
  else if resultIds.length ≠ completion.commands.length ∨ sortIds queryIds ≠ sortIds resultIds then
    .error (invalid (sub root "commands")
      "query completion identifiers must exactly match the activation")
  else .ok ()

end OcamlTemporal.Protocol.Completions
