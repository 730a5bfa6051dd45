import OcamlTemporal.Bridge.Control
import OcamlTemporal.Protocol.Workflow

/-!
# OcamlTemporal.Bridge.CoreFailure

Failures that Core hands to the bridge, and their conversion
(`rust/core-bridge/src/workflow_protocol.rs`, `failure_from_core` and what it uses). A failure
is a chain: each layer has a kind of its own and may have a cause. Free text is bounded by
`inboundText`, the chain by `maxInboundFailureLayers`: what is beyond becomes one synthetic
layer (`omittedCausesFailure`), which keeps the decision of the omitted layers whether to
retry (`omittedTailNonRetryable`).

A protobuf enum field is modelled as what `try_from` makes of its number: `none` is a number
that the pinned schema does not know.
-/

namespace OcamlTemporal.Bridge.Serde

open Control (ProtocolError)

def maxDurationSeconds : Int := 315576000000

def validateTime (seconds : Int64) (nanos : Int) (duration : Bool) (path : String) :
    Except ProtocolError Unit :=
  if ¬ (0 ≤ nanos ∧ nanos ≤ 999999999) then
    .error (.invalid path "nanoseconds are outside protobuf range")
  else if duration ∧ seconds.toInt < 0 then .error (.invalid path "duration must not be negative")
  else if duration ∧ seconds.toInt > maxDurationSeconds then
    .error (.invalid path "duration exceeds the protobuf maximum")
  else .ok ()

end OcamlTemporal.Bridge.Serde

namespace OcamlTemporal.Bridge.Inbound

open Lib.Json (sortKeys)
open Protocol (Bytes text isContinuation Duration RetryState TimeoutType
  ApplicationFailureCategory NexusHandlerRetryBehavior FailureInfo Failure)
open Control (maxStringBytes maxPayloadBytes)

inductive CoreConversionErrorCode
  | unsupported
  | invalidCore
  deriving DecidableEq, Repr

structure CoreConversionError where
  code : CoreConversionErrorCode
  message : String
  deriving DecidableEq, Repr

def invalidCore (message : String) : CoreConversionError := ⟨.invalidCore, message⟩

/-! ## Core's values -/

/-- A payload of Core. Its `external_payloads` are dropped unread. -/
structure CorePayload where
  metadata : List (Bytes × Bytes)
  data : Bytes
  deriving DecidableEq, Repr

structure CoreDuration where
  seconds : Int64
  nanos : Int32
  deriving DecidableEq, Repr

/-- `FailureInfo` of the API. An execution is its workflow id and its run id; a type is its
name. -/
inductive CoreFailureInfo
  | application (typeName : Bytes) (nonRetryable : Bool) (details : Option (List CorePayload))
      (category : Option ApplicationFailureCategory) (nextRetryDelay : Option CoreDuration)
  | canceled (details : Option (List CorePayload)) (identity : Bytes)
  | terminated (identity : Bytes)
  | activity (scheduledEventId startedEventId : Int64) (identity : Bytes)
      (activityType : Option Bytes) (activityId : Bytes) (retryState : Option RetryState)
  | childWorkflowExecution («namespace» : Bytes) (workflowExecution : Option (Bytes × Bytes))
      (workflowType : Option Bytes) (initiatedEventId startedEventId : Int64)
      (retryState : Option RetryState)
  | timeout (timeoutType : Option TimeoutType) (lastHeartbeatDetails : Option (List CorePayload))
  | server (nonRetryable : Bool)
  | resetWorkflow (lastHeartbeatDetails : Option (List CorePayload))
  | nexusOperationExecution (scheduledEventId : Int64)
      (endpoint service operation operationId operationToken : Bytes)
  | nexusHandler (typeName : Bytes) (retryBehavior : Option NexusHandlerRetryBehavior)
  deriving DecidableEq, Repr

structure CoreFailure where
  message : Bytes
  source : Bytes
  stackTrace : Bytes
  encodedAttributes : Option CorePayload
  cause : Option CoreFailure
  failureInfo : Option CoreFailureInfo

/-! ## Text, payloads and delays -/

def isCharBoundary (value : Bytes) (i : Nat) : Bool :=
  i = 0 || i = value.length || value[i]?.any fun b => !isContinuation b

/-- The loop that moves the cut down to a character boundary. -/
def cutAt (value : Bytes) : Nat → Nat
  | 0 => 0
  | cut + 1 => if isCharBoundary value (cut + 1) then cut + 1 else cutAt value cut

/-- The text that replaces the end of an oversized text. -/
def truncationMarker (length : Nat) : Bytes :=
  text "\n[truncated by ocaml-temporal: original length " ++ Lib.decimal length ++ text " bytes]"

def inboundText (value : Bytes) : Bytes :=
  if value.length ≤ maxStringBytes then value
  else
    let marker := truncationMarker value.length
    value.take (cutAt value (maxStringBytes - marker.length)) ++ marker

def payloadFromCore (value : CorePayload) : Except CoreConversionError Protocol.Payload :=
  if value.data.length > maxPayloadBytes ||
      value.metadata.any fun entry => entry.2.length > maxPayloadBytes then
    .error (invalidCore "Core payload exceeds the protocol byte limit")
  else if value.metadata.any fun entry => entry.1.length > maxStringBytes then
    .error (invalidCore "Core payload metadata key is outside protocol limits")
  else
    .ok ⟨sortKeys (value.metadata.filter fun entry => !entry.1.isEmpty), value.data⟩

def payloadsFromCore :
    Option (List CorePayload) → Except CoreConversionError (List Protocol.Payload)
  | none => .ok []
  | some payloads => payloads.mapM payloadFromCore

def durationFromCore (value : CoreDuration) : Except CoreConversionError Duration :=
  match Serde.validateTime value.seconds value.nanos.toInt true "$" with
  | .ok () => .ok ⟨value.seconds, value.nanos.toInt⟩
  | .error _ => .error (invalidCore "Core duration is not normalized")

/-- A negative delay asks for no wait, so it is no override. -/
def inboundRetryDelayFromCore (value : CoreDuration) :
    Except CoreConversionError (Option Duration) :=
  if value.seconds.toInt < 0 ∨ value.nanos.toInt < 0 then .ok none
  else (durationFromCore value).map some

def retryStateFromCore (value : Option RetryState) : RetryState := value.getD .unspecified

def timeoutTypeFromCore (value : Option TimeoutType) : TimeoutType := value.getD .unspecified

def applicationCategoryFromCore (value : Option ApplicationFailureCategory) :
    ApplicationFailureCategory := value.getD .unspecified

def nexusRetryBehaviorFromCore (value : Option NexusHandlerRetryBehavior) :
    NexusHandlerRetryBehavior := value.getD .unspecified

/-! ## Layers -/

def infoFromCore : Option CoreFailureInfo → Except CoreConversionError FailureInfo
  | none => .ok .absent
  | some (.application typeName nonRetryable details category nextRetryDelay) => do
    let details ← payloadsFromCore details
    let nextRetryDelay ← (match nextRetryDelay with
      | none => .ok none
      | some delay => inboundRetryDelayFromCore delay)
    return .application (inboundText typeName) nonRetryable details
      (applicationCategoryFromCore category) nextRetryDelay
  | some (.canceled details identity) => do
    let details ← payloadsFromCore details
    return .canceled details (inboundText identity)
  | some (.terminated identity) => .ok (.terminated (inboundText identity))
  | some (.activity scheduledEventId startedEventId identity activityType activityId retryState) =>
    .ok (.activity scheduledEventId startedEventId (inboundText identity)
      (inboundText (activityType.getD [])) (inboundText activityId) (retryStateFromCore retryState))
  | some (.childWorkflowExecution ns execution workflowType initiatedEventId startedEventId
      retryState) =>
    let (workflowId, runId) := execution.getD ([], [])
    .ok (.childWorkflow (inboundText ns) (inboundText workflowId) (inboundText runId)
      (inboundText (workflowType.getD [])) initiatedEventId startedEventId
      (retryStateFromCore retryState))
  | some (.timeout timeoutType lastHeartbeatDetails) => do
    let lastHeartbeatDetails ← payloadsFromCore lastHeartbeatDetails
    return .timeout (timeoutTypeFromCore timeoutType) lastHeartbeatDetails
  | some (.server nonRetryable) => .ok (.server nonRetryable)
  | some (.resetWorkflow lastHeartbeatDetails) => do
    let lastHeartbeatDetails ← payloadsFromCore lastHeartbeatDetails
    return .resetWorkflow lastHeartbeatDetails
  | some (.nexusOperationExecution scheduledEventId endpoint service operation operationId
      operationToken) =>
    .ok (.nexusOperation scheduledEventId (inboundText endpoint) (inboundText service)
      (inboundText operation) (inboundText operationId) (inboundText operationToken))
  | some (.nexusHandler typeName retryBehavior) =>
    .ok (.nexusHandler (inboundText typeName) (nexusRetryBehaviorFromCore retryBehavior))

def attributesFromCore : Option CorePayload → Except CoreConversionError (Option Protocol.Payload)
  | none => .ok none
  | some payload => (payloadFromCore payload).map some

/-! ## Chains -/

def maxInboundFailureLayers : Nat := 100

/-- `wrapper`, what the retry state of an activity or a child workflow decides. -/
def wrapperDecision : Option RetryState → Option Bool
  | some .nonRetryableFailure | some .maximumAttemptsReached => some true
  | some .inProgress | some .timeout | some .internalServerError | some .cancelRequested =>
    some false
  | some .retryPolicyNotSet | some .unspecified | none => none

/-- The types of Nexus handler errors that are not retried by default. -/
def nexusNonRetryableTypes : List Bytes :=
  [text "BAD_REQUEST", text "UNAUTHENTICATED", text "UNAUTHORIZED", text "NOT_FOUND",
    text "NOT_IMPLEMENTED", text "CONFLICT"]

/-- The decision of one layer in the loop of `omitted_tail_non_retryable`. -/
def coreDecision : Option CoreFailureInfo → Option Bool
  | some (.application _ nonRetryable _ _ _) => some nonRetryable
  | some (.canceled _ _) => some false
  | some (.terminated _) => some true
  | some (.activity _ _ _ _ _ retryState) => wrapperDecision retryState
  | some (.childWorkflowExecution _ _ _ _ _ retryState) => wrapperDecision retryState
  | some (.server nonRetryable) => some nonRetryable
  | some (.nexusHandler typeName retryBehavior) =>
    match retryBehavior with
    | some .nonRetryable => some true
    | some .retryable => some false
    | some .unspecified | none => some (nexusNonRetryableTypes.contains typeName)
  | some (.timeout _ _) | some (.resetWorkflow _) | some (.nexusOperationExecution _ _ _ _ _ _)
  | none => none

/-- The first layer with a decision decides; a chain without one is retried. -/
def omittedTailNonRetryable : CoreFailure → Bool
  | ⟨_, _, _, _, cause, info⟩ =>
    match coreDecision info with
    | some nonRetryable => nonRetryable
    | none =>
      match cause with
      | some cause => omittedTailNonRetryable cause
      | none => false

def countLayers : CoreFailure → Nat
  | ⟨_, _, _, _, cause, _⟩ =>
    match cause with
    | some cause => countLayers cause + 1
    | none => 1

def omittedCausesFailure (firstOmitted : CoreFailure) : Failure where
  message := text "[truncated by ocaml-temporal: " ++ Lib.decimal (countLayers firstOmitted) ++
    text " deeper failure causes omitted beyond " ++ Lib.decimal maxInboundFailureLayers ++
    text " layers]"
  source := []
  stackTrace := []
  encodedAttributes := none
  cause := none
  info := if omittedTailNonRetryable firstOmitted then .server true else .absent

/-- `failure_from_core_at` and `failure_layer_from_core`. At the limit a cause is kept only if
it is the last of the chain. -/
def failureFromCoreAt (layer : Nat) : CoreFailure → Except CoreConversionError Failure
  | ⟨message, source, stackTrace, encodedAttributes, cause, info⟩ => do
    let info ← infoFromCore info
    let cause ← (match cause with
      | none => .ok none
      | some cause =>
        if layer + 1 < maxInboundFailureLayers ∨ cause.cause = none then
          (failureFromCoreAt (layer + 1) cause).map some
        else .ok (some (omittedCausesFailure cause)))
    let encodedAttributes ← attributesFromCore encodedAttributes
    return ⟨inboundText message, inboundText source, inboundText stackTrace, encodedAttributes,
      cause, info⟩

def failureFromCore (value : CoreFailure) : Except CoreConversionError Failure :=
  failureFromCoreAt 1 value

end OcamlTemporal.Bridge.Inbound
