import Mathlib
import OcamlTemporal.Lib.Outcome
import OcamlTemporal.Protocol.Control
import OcamlTemporal.Protocol.Workflow

/-!
# OcamlTemporal.Protocol.Codec

The codec that the OCaml protocols share (the first half and the `Internal` module of
`lib/protocol/workflow_protocol.ml`): closed objects, bounded texts and numbers, payloads,
times and failures. A decoder takes the path of its value in the document; a failed check
names it. The decoders that proofs take apart have their rule beside them: `exactObject_ok`,
`member_ok` and `int64_ok` say what they return, and of which document.

Two lines of the source read a member (`field`) and decode it at its own path; here they are
one, `member`.
-/

namespace OcamlTemporal.Protocol.Codec

open Lib (Json bind_ok)
open Lib.Json (sortKeys)
open Control (inInt64 exactFields)

abbrev Decoder (α : Type) := Bytes → Json → Except Control.Error α

def invalid (path : Bytes) (message : String) : Control.Error := Control.invalidAt path message

def ofControlError {α : Type} (path : Bytes) : Except Control.Error α → Except Control.Error α
  | .ok value => .ok value
  | .error e => .error { e with path := path }

def sub (path : Bytes) (name : String) : Bytes := path ++ text "." ++ text name

/-! ## Objects and lists -/

def exactObject (path : Bytes) (expected : List String) :
    Json → Except Control.Error (List (Bytes × Json))
  | .obj entries =>
    if exactFields expected entries then .ok entries
    else .error (invalid path "object has missing or unknown fields")
  | _ => .error (invalid path "expected JSON object")

theorem exactObject_ok {path : Bytes} {expected : List String} {j : Json}
    {entries : List (Bytes × Json)} :
    exactObject path expected j = .ok entries ↔
      j = .obj entries ∧ exactFields expected entries = true := by
  cases j with
  | obj members =>
    simp only [exactObject, Json.obj.injEq]
    split_ifs with h
    · simp only [Except.ok.injEq]
      exact ⟨fun h' => ⟨h', h' ▸ h⟩, And.left⟩
    · refine ⟨fun h' => (by cases h'), ?_⟩
      rintro ⟨rfl, h'⟩
      exact absurd h' h
  | _ => simp [exactObject]

/-- The members of an object whose kind is not known yet. -/
def anyObject (path : Bytes) : Json → Except Control.Error (List (Bytes × Json))
  | .obj entries => .ok entries
  | _ => .error (invalid path "expected JSON object")

def field (path : Bytes) (name : String) (entries : List (Bytes × Json)) :
    Except Control.Error Json :=
  Control.field path name entries

def member {α : Type} (path : Bytes) (name : String) (entries : List (Bytes × Json))
    (decode : Decoder α) : Except Control.Error α := do
  let json ← field path name entries
  decode (sub path name) json

theorem member_ok {α : Type} {path : Bytes} {name : String} {entries : List (Bytes × Json)}
    {decode : Decoder α} {a : α} :
    member path name entries decode = .ok a ↔
      ∃ j, entries.lookup (text name) = some j ∧ decode (sub path name) j = .ok a := by
  rw [member, bind_ok]
  refine exists_congr fun j => and_congr_left fun _ => ?_
  rw [field, Control.field]
  cases entries.lookup (text name) <;> simp

def listFrom {α : Type} (decode : Decoder α) (path : Bytes) (index : Nat) :
    List Json → Except Control.Error (List α)
  | [] => .ok []
  | value :: rest => do
    let value ← decode (path ++ text "[" ++ Lib.decimal index ++ text "]") value
    let rest ← listFrom decode path (index + 1) rest
    return value :: rest

def list {α : Type} (decode : Decoder α) : Decoder (List α) := fun path json =>
  match json with
  | .arr values => listFrom decode path 0 values
  | _ => .error (invalid path "expected JSON array")

def nullable {α : Type} (decode : Decoder α) : Decoder (Option α) := fun path json =>
  match json with
  | .null => .ok none
  | value => do
    let value ← decode path value
    return some value

/-! ## Texts and numbers -/

def string : Decoder Bytes := fun path json =>
  match json with
  | .str value =>
    if value.length ≤ 65536 then .ok value
    else .error (invalid path "decoded JSON string limit exceeded")
  | _ => .error (invalid path "expected JSON string")

def protocolStringSafetyLimit : Nat := 65536

def identifier : Decoder Bytes := fun path json => do
  let value ← string path json
  if value.length = 0 ∨ value.length > protocolStringSafetyLimit then
    throw (invalid path "identifier is empty or exceeds the protocol string safety limit")
  else if (0 : UInt8) ∈ value then throw (invalid path "identifier must not contain NUL")
  else if !validUtf8 value then throw (invalid path "identifier must be valid UTF-8")
  else return value

def bool : Decoder Bool := fun path json =>
  match json with
  | .bool value => .ok value
  | _ => .error (invalid path "expected JSON boolean")

def int64 : Decoder Int64 := fun path json =>
  match json with
  | .int n =>
    if inInt64 n then .ok (Int64.ofInt n)
    else .error (invalid path "integer is outside signed 64-bit range")
  | _ => .error (invalid path "expected JSON integer")

/-- The decoder returns the integer that stands there. -/
theorem int64_ok {path : Bytes} {j : Json} {m : Int64} :
    int64 path j = .ok m ↔ j = .int m.toInt := by
  cases j with
  | int n =>
    simp only [int64, inInt64, Json.int.injEq, Bool.and_eq_true, decide_eq_true_eq]
    constructor
    · intro h
      split_ifs at h with hn
      cases h
      exact (Int64.toInt_ofInt_of_le hn.1 hn.2).symm
    · rintro rfl
      rw [if_pos ⟨Int64.le_toInt m, Int64.toInt_lt m⟩, Int64.ofInt_toInt]
  | _ => simp [int64]

def nonnegativeInt64 : Decoder Int64 := fun path json => do
  let value ← int64 path json
  if value.toInt < 0 then throw (invalid path "event identifier must not be negative")
  else return value

def uint32 : Decoder Int64 := fun path json => do
  let value ← int64 path json
  if value.toInt < 0 ∨ value.toInt > 4294967295 then
    throw (invalid path "integer is outside unsigned 32-bit range")
  else return value

/-- The canonical decimal notation of a number below `2 ^ 64`. -/
def canonicalUint64 (value : Bytes) : Bool :=
  let maximum := text "18446744073709551615"
  !(value.length = 0 || (value.length > 1 && value.head? = some 48) ||
    !value.all Lib.Json.isDigit || value.length > maximum.length ||
    (value.length = maximum.length && maximum < value))

def uint64Decimal : Decoder Bytes := fun path json => do
  let value ← string path json
  if canonicalUint64 value then return value
  else throw (invalid path "value is not canonical unsigned 64-bit decimal")

/-- One digit into the two limbs (high, low) of `uint64_bits`. -/
def uint64Step (limbs : Int64 × Int64) (digit : UInt8) : Int64 × Int64 :=
  let base : Int64 := 4294967296
  let product := limbs.2 * 10 + Int64.ofInt (digit.toNat - 48)
  (limbs.1 * 10 + product / base, product % base)

/-- The 64-bit pattern of a number in decimal notation. -/
def uint64Bits : Decoder Int64 := fun path json => do
  let value ← uint64Decimal path json
  let (high, low) := value.foldl uint64Step (0, 0)
  if high > 0xffffffff then throw (invalid path "value is outside unsigned 64-bit range")
  else return high <<< 32 ||| (low &&& 0xffffffff)

def named {α : Type} (message : String) (names : List (String × α)) : Decoder α :=
  fun path json => do
    let name ← string path json
    match names.find? fun entry => text entry.1 = name with
    | some entry => return entry.2
    | none => throw (invalid path message)

/-! ## Payloads -/

def bytesWrapper : Decoder Bytes := fun path json =>
  ofControlError path (Control.decodePayloadJson json)

def bytesWrapperJson (bytes : Bytes) : Except Control.Error Json :=
  ofControlError (text "$") (Control.payloadJson bytes)

def decodeMetadata (path : Bytes) :
    List (Bytes × Json) → Except Control.Error (List (Bytes × Bytes))
  | [] => .ok []
  | (key, value) :: rest =>
    if key.length = 0 ∨ key.length > 65536 then
      .error (invalid (sub path "metadata") "metadata key length is outside protocol limits")
    else do
      let bytes ← bytesWrapper (sub path "metadata" ++ text "." ++ key) value
      let rest ← decodeMetadata path rest
      return (key, bytes) :: rest

def payload : Decoder Payload := fun path json => do
  let entries ← exactObject path ["metadata", "data"] json
  let metadataEntries ← member path "metadata" entries anyObject
  let metadata ← decodeMetadata path metadataEntries
  let data ← member path "data" entries bytesWrapper
  return ⟨sortKeys metadata, data⟩

/-- The loop over the metadata, with the keys `seen` before. -/
def metadataJson (seen : List Bytes) :
    List (Bytes × Bytes) → Except Control.Error (List (Bytes × Json))
  | [] => .ok []
  | (key, bytes) :: rest =>
    if key.length = 0 ∨ key.length > 65536 then
      .error (invalid (text "$.metadata") "metadata key length is outside protocol limits")
    else if key ∈ seen then .error (invalid (text "$.metadata") "duplicate metadata key")
    else do
      let wrapped ← bytesWrapperJson bytes
      let rest ← metadataJson (key :: seen) rest
      return (key, wrapped) :: rest

def payloadJson (value : Payload) : Except Control.Error Json := do
  let metadata ← metadataJson [] value.metadata
  let data ← bytesWrapperJson value.data
  return .obj [(text "metadata", .obj metadata), (text "data", data)]

def payloadsLoop : List Payload → Except Control.Error (List Json)
  | [] => .ok []
  | value :: rest => do
    let value ← payloadJson value
    let rest ← payloadsLoop rest
    return value :: rest

def payloadsJson (values : List Payload) : Except Control.Error Json := do
  let encoded ← payloadsLoop values
  return .arr encoded

def nullableJson {α : Type} (encode : α → Except Control.Error Json) :
    Option α → Except Control.Error Json
  | none => .ok .null
  | some value => encode value

/-! ## Times -/

def nanosecondsInRange (nanos : Int) : Bool := decide (0 ≤ nanos) && decide (nanos ≤ 999999999)

def timestamp : Decoder Timestamp := fun path json => do
  let entries ← exactObject path ["seconds", "nanoseconds"] json
  let seconds ← member path "seconds" entries int64
  let nanos ← member path "nanoseconds" entries int64
  if !nanosecondsInRange nanos.toInt then
    throw (invalid (sub path "nanoseconds") "nanoseconds are outside protobuf range")
  else return ⟨seconds, nanos.toInt⟩

def maxDurationSeconds : Int := 315576000000

def duration : Decoder Duration := fun path json => do
  let value ← timestamp path json
  if value.seconds.toInt < 0 then
    throw (invalid (sub path "seconds") "duration must not be negative")
  else if value.seconds.toInt > maxDurationSeconds then
    throw (invalid (sub path "seconds") "duration exceeds the protobuf maximum")
  else return ⟨value.seconds, value.nanoseconds⟩

def timeJson (seconds : Int64) (nanoseconds : Int) : Json :=
  .obj [(text "seconds", .int seconds.toInt), (text "nanoseconds", .int nanoseconds)]

def durationJson (value : Duration) : Json := timeJson value.seconds value.nanoseconds

/-! ## Failures -/

def retryStateString : RetryState → String
  | .unspecified => "unspecified"
  | .inProgress => "in_progress"
  | .nonRetryableFailure => "non_retryable_failure"
  | .timeout => "timeout"
  | .maximumAttemptsReached => "maximum_attempts_reached"
  | .retryPolicyNotSet => "retry_policy_not_set"
  | .internalServerError => "internal_server_error"
  | .cancelRequested => "cancel_requested"

def retryState : Decoder RetryState :=
  named "unknown retry state"
    [("unspecified", .unspecified), ("in_progress", .inProgress),
      ("non_retryable_failure", .nonRetryableFailure), ("timeout", .timeout),
      ("maximum_attempts_reached", .maximumAttemptsReached),
      ("retry_policy_not_set", .retryPolicyNotSet),
      ("internal_server_error", .internalServerError), ("cancel_requested", .cancelRequested)]

def applicationFailureCategoryString : ApplicationFailureCategory → String
  | .unspecified => "unspecified"
  | .benign => "benign"

def applicationFailureCategory : Decoder ApplicationFailureCategory :=
  named "unknown application failure category"
    [("unspecified", .unspecified), ("benign", .benign)]

def timeoutTypeString : TimeoutType → String
  | .unspecified => "unspecified"
  | .startToClose => "start_to_close"
  | .scheduleToStart => "schedule_to_start"
  | .scheduleToClose => "schedule_to_close"
  | .heartbeat => "heartbeat"

def timeoutType : Decoder TimeoutType :=
  named "unknown timeout type"
    [("unspecified", .unspecified), ("start_to_close", .startToClose),
      ("schedule_to_start", .scheduleToStart), ("schedule_to_close", .scheduleToClose),
      ("heartbeat", .heartbeat)]

def nexusHandlerRetryBehaviorString : NexusHandlerRetryBehavior → String
  | .unspecified => "unspecified"
  | .retryable => "retryable"
  | .nonRetryable => "non_retryable"

def nexusHandlerRetryBehavior : Decoder NexusHandlerRetryBehavior :=
  named "unknown Nexus handler retry behavior"
    [("unspecified", .unspecified), ("retryable", .retryable), ("non_retryable", .nonRetryable)]

def optionalFields (names : List String) (entries : List (Bytes × Json)) : List String :=
  names.filter fun name => (entries.lookup (text name)).isSome

def optionalMember {α : Type} (path : Bytes) (name : String) (default : α)
    (entries : List (Bytes × Json)) (decode : Decoder α) : Except Control.Error α :=
  match entries.lookup (text name) with
  | none => .ok default
  | some value => decode (sub path name) value

def kindOf (path : Bytes) (json : Json) : Except Control.Error Bytes := do
  let entries ← anyObject path json
  member path "kind" entries string

def applicationInfo (path : Bytes) (json : Json) : Except Control.Error FailureInfo := do
  let members ← anyObject path json
  let entries ← exactObject path
    (["kind", "type", "non_retryable", "details"] ++
      optionalFields ["category", "next_retry_delay"] members) json
  let typeName ← member path "type" entries string
  let nonRetryable ← member path "non_retryable" entries bool
  let details ← member path "details" entries (list payload)
  let category ← optionalMember path "category" .unspecified entries applicationFailureCategory
  let nextRetryDelay ← optionalMember path "next_retry_delay" none entries (nullable duration)
  return .application typeName nonRetryable details category nextRetryDelay

def canceledInfo (path : Bytes) (json : Json) : Except Control.Error FailureInfo := do
  let entries ← exactObject path ["kind", "details", "identity"] json
  let details ← member path "details" entries (list payload)
  let identity ← member path "identity" entries string
  return .canceled details identity

def terminatedInfo (path : Bytes) (json : Json) : Except Control.Error FailureInfo := do
  let entries ← exactObject path ["kind", "identity"] json
  let identity ← member path "identity" entries string
  return .terminated identity

def activityInfo (path : Bytes) (json : Json) : Except Control.Error FailureInfo := do
  let entries ← exactObject path
    ["kind", "scheduled_event_id", "started_event_id", "identity", "activity_type",
      "activity_id", "retry_state"] json
  let scheduledEventId ← member path "scheduled_event_id" entries nonnegativeInt64
  let startedEventId ← member path "started_event_id" entries nonnegativeInt64
  let identity ← member path "identity" entries string
  let activityType ← member path "activity_type" entries string
  let activityId ← member path "activity_id" entries string
  let retryState ← member path "retry_state" entries retryState
  return .activity scheduledEventId startedEventId identity activityType activityId retryState

def childWorkflowInfo (path : Bytes) (json : Json) : Except Control.Error FailureInfo := do
  let entries ← exactObject path
    ["kind", "namespace", "workflow_id", "run_id", "workflow_type", "initiated_event_id",
      "started_event_id", "retry_state"] json
  let ns ← member path "namespace" entries string
  let workflowId ← member path "workflow_id" entries string
  let workflowType ← member path "workflow_type" entries string
  let initiatedEventId ← member path "initiated_event_id" entries nonnegativeInt64
  let startedEventId ← member path "started_event_id" entries nonnegativeInt64
  let runId ← member path "run_id" entries string
  let retryState ← member path "retry_state" entries retryState
  return .childWorkflow ns workflowId runId workflowType initiatedEventId startedEventId retryState

def timeoutInfo (path : Bytes) (json : Json) : Except Control.Error FailureInfo := do
  let entries ← exactObject path ["kind", "timeout_type", "last_heartbeat_details"] json
  let timeoutType ← member path "timeout_type" entries timeoutType
  let lastHeartbeatDetails ← member path "last_heartbeat_details" entries (list payload)
  return .timeout timeoutType lastHeartbeatDetails

def serverInfo (path : Bytes) (json : Json) : Except Control.Error FailureInfo := do
  let entries ← exactObject path ["kind", "non_retryable"] json
  let nonRetryable ← member path "non_retryable" entries bool
  return .server nonRetryable

def resetWorkflowInfo (path : Bytes) (json : Json) : Except Control.Error FailureInfo := do
  let entries ← exactObject path ["kind", "last_heartbeat_details"] json
  let lastHeartbeatDetails ← member path "last_heartbeat_details" entries (list payload)
  return .resetWorkflow lastHeartbeatDetails

def nexusOperationInfo (path : Bytes) (json : Json) : Except Control.Error FailureInfo := do
  let entries ← exactObject path
    ["kind", "scheduled_event_id", "endpoint", "service", "operation", "operation_id",
      "operation_token"] json
  let scheduledEventId ← member path "scheduled_event_id" entries nonnegativeInt64
  let endpoint ← member path "endpoint" entries string
  let service ← member path "service" entries string
  let operation ← member path "operation" entries string
  let operationId ← member path "operation_id" entries string
  let operationToken ← member path "operation_token" entries string
  return .nexusOperation scheduledEventId endpoint service operation operationId operationToken

def nexusHandlerInfo (path : Bytes) (json : Json) : Except Control.Error FailureInfo := do
  let entries ← exactObject path ["kind", "type", "retry_behavior"] json
  let typeName ← member path "type" entries string
  let retryBehavior ← member path "retry_behavior" entries nexusHandlerRetryBehavior
  return .nexusHandler typeName retryBehavior

def absentInfo (path : Bytes) (json : Json) : Except Control.Error FailureInfo := do
  let _ ← exactObject path ["kind"] json
  return .absent

def ofKind {α : Type} (message : String) (cases : List (String × Decoder α)) : Decoder α :=
  fun path json => do
    let kind ← kindOf path json
    match cases.find? fun entry => text entry.1 = kind with
    | some entry => entry.2 path json
    | none => throw (invalid (sub path "kind") message)

def failureInfo : Decoder FailureInfo :=
  ofKind "unsupported failure info kind"
    [("application", applicationInfo), ("canceled", canceledInfo), ("terminated", terminatedInfo),
      ("activity", activityInfo), ("child_workflow", childWorkflowInfo), ("timeout", timeoutInfo),
      ("server", serverInfo), ("reset_workflow", resetWorkflowInfo),
      ("nexus_operation", nexusOperationInfo), ("nexus_handler", nexusHandlerInfo),
      ("absent", absentInfo)]

def failureFields : List String :=
  ["message", "source", "stack_trace", "encoded_attributes", "cause", "info"]

mutual

/-- The recursion into the cause follows the members of the object (`failureCause`); see
`failure_eq` for the body of the source. -/
def failure (path : Bytes) (json : Json) : Except Control.Error Failure :=
  match json with
  | .obj entries =>
    if exactFields failureFields entries then do
      let message ← member path "message" entries string
      let source ← member path "source" entries string
      let stackTrace ← member path "stack_trace" entries string
      let encodedAttributes ← member path "encoded_attributes" entries (nullable payload)
      let cause ← failureCause path entries
      let info ← member path "info" entries failureInfo
      return ⟨message, source, stackTrace, encodedAttributes, cause, info⟩
    else .error (invalid path "object has missing or unknown fields")
  | _ => .error (invalid path "expected JSON object")

def failureCause (path : Bytes) : List (Bytes × Json) → Except Control.Error (Option Failure)
  | [] => .error (invalid path "missing required field cause")
  | (key, value) :: rest =>
    if key = text "cause" then
      match value with
      | .null => .ok none
      | value => do
        let value ← failure (sub path "cause") value
        return some value
    else failureCause path rest

end

theorem failureCause_eq (path : Bytes) (entries : List (Bytes × Json)) :
    failureCause path entries = member path "cause" entries (nullable failure) := by
  induction entries with
  | nil => rfl
  | cons entry entries ih =>
    obtain ⟨key, value⟩ := entry
    rw [failureCause.eq_def]
    by_cases hkey : key = text "cause"
    · subst hkey
      have hfield : field path "cause" ((text "cause", value) :: entries) = .ok value := by
        simp [field, Control.field]
      rw [member, hfield]
      simp only [if_true]
      cases value <;> rfl
    · have hne : (text "cause" == key) = false := beq_eq_false_iff_ne.mpr (Ne.symm hkey)
      simp only [hkey, if_false]
      rw [ih]
      simp only [member, field, Control.field, List.lookup_cons, hne]

theorem failure_eq (path : Bytes) (json : Json) :
    failure path json = (do
      let entries ← exactObject path failureFields json
      let message ← member path "message" entries string
      let source ← member path "source" entries string
      let stackTrace ← member path "stack_trace" entries string
      let encodedAttributes ← member path "encoded_attributes" entries (nullable payload)
      let cause ← member path "cause" entries (nullable failure)
      let info ← member path "info" entries failureInfo
      return ⟨message, source, stackTrace, encodedAttributes, cause, info⟩) := by
  cases json with
  | obj entries =>
    rw [failure, exactObject, failureCause_eq]
    split_ifs <;> rfl
  | _ => rfl

def failureInfoJson : FailureInfo → Except Control.Error Json
  | .application typeName nonRetryable details category nextRetryDelay => do
    let details ← payloadsJson details
    let categoryField :=
      match category with
      | .unspecified => []
      | .benign => [(text "category", Json.str (text (applicationFailureCategoryString category)))]
    let retryDelayField :=
      match nextRetryDelay with
      | none => []
      | some value => [(text "next_retry_delay", durationJson value)]
    return .obj ([(text "kind", .str (text "application")), (text "type", .str typeName),
      (text "non_retryable", .bool nonRetryable), (text "details", details)] ++ categoryField ++
      retryDelayField)
  | .canceled details identity => do
    let details ← payloadsJson details
    return .obj [(text "kind", .str (text "canceled")), (text "details", details),
      (text "identity", .str identity)]
  | .terminated identity =>
    .ok (.obj [(text "kind", .str (text "terminated")), (text "identity", .str identity)])
  | .activity scheduledEventId startedEventId identity activityType activityId retryState =>
    .ok (.obj [(text "kind", .str (text "activity")),
      (text "scheduled_event_id", .int scheduledEventId.toInt),
      (text "started_event_id", .int startedEventId.toInt), (text "identity", .str identity),
      (text "activity_type", .str activityType), (text "activity_id", .str activityId),
      (text "retry_state", .str (text (retryStateString retryState)))])
  | .childWorkflow ns workflowId runId workflowType initiatedEventId startedEventId retryState =>
    .ok (.obj [(text "kind", .str (text "child_workflow")), (text "namespace", .str ns),
      (text "workflow_id", .str workflowId), (text "run_id", .str runId),
      (text "workflow_type", .str workflowType),
      (text "initiated_event_id", .int initiatedEventId.toInt),
      (text "started_event_id", .int startedEventId.toInt),
      (text "retry_state", .str (text (retryStateString retryState)))])
  | .timeout timeoutType lastHeartbeatDetails => do
    let lastHeartbeatDetails ← payloadsJson lastHeartbeatDetails
    return .obj [(text "kind", .str (text "timeout")),
      (text "timeout_type", .str (text (timeoutTypeString timeoutType))),
      (text "last_heartbeat_details", lastHeartbeatDetails)]
  | .server nonRetryable =>
    .ok (.obj [(text "kind", .str (text "server")), (text "non_retryable", .bool nonRetryable)])
  | .resetWorkflow lastHeartbeatDetails => do
    let lastHeartbeatDetails ← payloadsJson lastHeartbeatDetails
    return .obj [(text "kind", .str (text "reset_workflow")),
      (text "last_heartbeat_details", lastHeartbeatDetails)]
  | .nexusOperation scheduledEventId endpoint service operation operationId operationToken =>
    .ok (.obj [(text "kind", .str (text "nexus_operation")),
      (text "scheduled_event_id", .int scheduledEventId.toInt), (text "endpoint", .str endpoint),
      (text "service", .str service), (text "operation", .str operation),
      (text "operation_id", .str operationId), (text "operation_token", .str operationToken)])
  | .nexusHandler typeName retryBehavior =>
    .ok (.obj [(text "kind", .str (text "nexus_handler")), (text "type", .str typeName),
      (text "retry_behavior", .str (text (nexusHandlerRetryBehaviorString retryBehavior)))])
  | .absent => .ok (.obj [(text "kind", .str (text "absent"))])

def failureJson : Failure → Except Control.Error Json
  | ⟨message, source, stackTrace, encodedAttributes, cause, info⟩ => do
    let encodedAttributes ← nullableJson payloadJson encodedAttributes
    let cause ← (match cause with
      | none => .ok .null
      | some cause => failureJson cause)
    let info ← failureInfoJson info
    return .obj [(text "message", .str message), (text "source", .str source),
      (text "stack_trace", .str stackTrace), (text "encoded_attributes", encodedAttributes),
      (text "cause", cause), (text "info", info)]

theorem failureJson_eq (value : Failure) :
    failureJson value = (do
      let encodedAttributes ← nullableJson payloadJson value.encodedAttributes
      let cause ← nullableJson failureJson value.cause
      let info ← failureInfoJson value.info
      return .obj [(text "message", .str value.message), (text "source", .str value.source),
        (text "stack_trace", .str value.stackTrace), (text "encoded_attributes", encodedAttributes),
        (text "cause", cause), (text "info", info)]) := by
  obtain ⟨message, source, stackTrace, encodedAttributes, cause, info⟩ := value
  rw [failureJson.eq_def]
  cases cause <;> rfl

/-! ## Executions and priorities -/

end OcamlTemporal.Protocol.Codec
