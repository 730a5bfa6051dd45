import OcamlTemporal.Base.Error
import OcamlTemporal.Lib.SelfDelimiting
import OcamlTemporal.Protocol.Values

/-!
# OcamlTemporal.Activity.Request

What the activity adapter sends to Core and how it is built
(`lib/runtime/native_activity_execution.ml`, `lib/base/async_activity.ml`): the
bounded diagnostics, the failures made from errors and cancellations, the
operations of an asynchronous handle with their request keys, and
`prepareAsyncRequest`, which turns an operation into the bytes of its request.

The strict encoders of the protocol are parameters (`Encoders`): everything here
holds whatever bytes they produce and whatever they refuse.
-/

namespace OcamlTemporal.Activity

open OcamlTemporal.Protocol
open OcamlTemporal.Lib (decimal netstring)

/-- Payloads on both sides of the boundary have the same fields. -/
abbrev Payload := Protocol.Payload

/-! ## Diagnostics -/

/-- A typed operational error (`Error.t`), with texts of any bytes. -/
structure Error where
  category : Category
  message : Bytes
  nonRetryable : Bool := false
  details : List Payload := []
  errorType : Option Bytes := none

namespace Error

def kind (e : Error) : Bytes := text e.category.kind

def applicationFailureType (e : Error) : Bytes := e.errorType.getD e.kind

end Error

/-- A diagnostic of the adapter (`error_view`). -/
structure ErrorView where
  code : Bytes
  path : Bytes
  message : Bytes
  retryable : Bool
  deriving DecidableEq, Repr

/-- The longest of the first `n` prefixes of `value` that is text, with an
ellipsis. -/
def boundedPrefix (fallback value : Bytes) : Nat → Bytes
  | 0 => fallback
  | n + 1 =>
    if validUtf8 (value.take (n + 1)) then value.take (n + 1) ++ text "..."
    else boundedPrefix fallback value n

/-- Bounds a text that goes into a diagnostic or a failure. -/
def boundedText (maximum : Nat) (fallback value : Bytes) : Bytes :=
  if !validUtf8 value then fallback
  else if value.length ≤ maximum then value
  else boundedPrefix fallback value (maximum - 3)

def boundedCode (value : Bytes) : Bytes := boundedText 1024 (text "native_activity_error") value

def makeError (path : Bytes) (retryable : Bool) (code message : Bytes) : ErrorView where
  code := boundedCode code
  path := path
  message := boundedText 1024 (text "invalid activity diagnostic") message
  retryable := retryable

def applicationError (path : Bytes) (e : Error) : ErrorView :=
  makeError path false e.kind e.message

/-! ## Failures and payloads -/

inductive CancelReason
  | notFound
  | requested
  | timedOut
  | workerShutdown
  | paused
  | reset
  deriving DecidableEq, Repr

def CancelReason.label : CancelReason → Bytes
  | requested => text "cancelled"
  | timedOut => text "timed_out"
  | notFound => text "not_found"
  | workerShutdown => text "worker_shutdown"
  | paused => text "paused"
  | reset => text "reset"

/-- The failure every failure of the adapter is a variant of: only its message,
its source and its info differ. -/
def plainFailure (message source : Bytes) (info : FailureInfo) : Failure where
  message := message
  source := source
  stackTrace := []
  encodedAttributes := none
  cause := none
  info := info

/-- The application failure for a task that cannot be dispatched locally. -/
def failureOfError (typeName : Bytes) (nonRetryable : Bool) (e : ErrorView) : Failure :=
  plainFailure e.message (text "ocaml-temporal")
    (.application typeName nonRetryable [] .unspecified none)

def cancellationFailure (details : List Payload) (reason : CancelReason) : Failure :=
  plainFailure (text "activity cancellation requested: " ++ reason.label) (text "temporal")
    (.canceled details (text "ocaml-temporal"))

/-- Checks the metadata keys of a payload that leaves the adapter. Keys are
non-empty text of at most 65536 bytes; values may be any bytes. -/
def protocolPayload (path : Bytes) (payload : Payload) : Except ErrorView Payload :=
  let rec metadataLoop : List (Bytes × Bytes) → Except ErrorView (List (Bytes × Bytes))
    | [] => .ok []
    | (key, value) :: rest =>
      if key.length = 0 || key.length > 65536 then
        .error (makeError (path ++ text ".metadata") false (text "invalid_message")
          (text "metadata key must be non-empty and at most 65536 bytes"))
      else if !validUtf8 key then
        .error (makeError (path ++ text ".metadata.key") false (text "invalid_message")
          (text "metadata key must be valid UTF-8"))
      else (metadataLoop rest).map ((key, value) :: ·)
  (metadataLoop payload.metadata).map fun metadata => { metadata, data := payload.data }

/-- Converts payloads in order, up to the first that is refused. -/
def protocolPayloads (path : Bytes) : List Payload → Except ErrorView (List Payload)
  | [] => .ok []
  | payload :: rest => do
    let payload ← protocolPayload path payload
    let rest ← protocolPayloads path rest
    return payload :: rest

def failureOfApplicationError (diagnostic : ErrorView) (e : Error) : Except ErrorView Failure := do
  let details ← protocolPayloads (text "$.completion.result.info.details") e.details
  return plainFailure diagnostic.message (text "ocaml-temporal")
    (.application e.applicationFailureType e.nonRetryable details .unspecified none)

/-! ## Completions and their encoders -/

inductive CompletionResult
  | completed (payload : Payload)
  | failed (failure : Failure)
  | cancelled (failure : Failure)
  | willCompleteAsync

structure Completion where
  taskToken : Bytes
  result : CompletionResult

structure Heartbeat where
  taskToken : Bytes
  details : List Payload

/-- A heartbeat of an asynchronous handle carries the timeout of its attempt. -/
structure AsyncHeartbeat where
  heartbeat : Heartbeat
  heartbeatTimeout : Option Duration

/-- The strict encoders (`Encoded_completion.encode`,
`Encoded_async_heartbeat.encode`) with the diagnostics of what they refuse. -/
structure Encoders where
  completion : Completion → Except ErrorView Bytes
  asyncHeartbeat : AsyncHeartbeat → Except ErrorView Bytes

/-! ## Operations of an asynchronous handle -/

inductive Operation
  | complete (payload : Payload)
  | fail (error : Error)
  | cancel (details : List Payload)
  | heartbeat (details : List Payload)

def addField (value : Bytes) : Bytes := netstring value

/-- What `add_payload` appends to the key for one metadata entry. -/
def addMetadata (entry : Bytes × Bytes) : Bytes :=
  addField (text "metadata") ++ addField entry.1 ++ addField entry.2

def addPayload (payload : Payload) : Bytes :=
  addField (text "payload") ++ addField (decimal payload.metadata.length) ++
    payload.metadata.flatMap addMetadata ++
    addField (text "data") ++ addField (decimal payload.data.length) ++ addField payload.data

def addPayloads (payloads : List Payload) : Bytes :=
  addField (text "payloads") ++ addField (decimal payloads.length) ++ payloads.flatMap addPayload

/-- The equality key of a request: only a request with the same key may follow
one whose outcome is unknown. -/
def operationKey : Operation → Bytes
  | .complete payload => addField (text "complete") ++ addPayload payload
  | .fail e =>
    addField (text "fail") ++ addField e.kind ++ addField e.applicationFailureType ++
      addField e.message ++ addField (if e.nonRetryable then text "1" else text "0") ++
      addPayloads e.details
  | .cancel payloads => addField (text "cancel") ++ addPayloads payloads
  | .heartbeat payloads => addField (text "heartbeat") ++ addPayloads payloads

/-! ## Preparing a request -/

/-- A request whose bytes are ready to cross the supervisor boundary. -/
inductive AsyncRequest
  | completion (encoded : Bytes)
  | heartbeat (encoded : Bytes)
  deriving DecidableEq, Repr

inductive TypedRequest
  | completion (value : Completion)
  | heartbeat (value : Heartbeat)

/-- Builds the typed request: the first half of `prepare_async_request`. -/
def typedRequest (taskToken : Bytes) : Operation → Except ErrorView TypedRequest
  | .complete payload => do
    let payload ← protocolPayload (text "$.async_completion.result") payload
    return .completion { taskToken, result := .completed payload }
  | .fail e => do
    let diagnostic := applicationError (text "$.async_failure") e
    let failure ← failureOfApplicationError diagnostic e
    return .completion { taskToken, result := .failed failure }
  | .cancel payloads => do
    let details ← protocolPayloads (text "$.async_cancellation.details") payloads
    return .completion { taskToken, result := .cancelled (cancellationFailure details .requested) }
  | .heartbeat payloads => do
    let details ← protocolPayloads (text "$.async_heartbeat.details") payloads
    return .heartbeat { taskToken, details }

/-- Validates and encodes an operation before any native call. -/
def prepareAsyncRequest (enc : Encoders) (token : Bytes) (heartbeatTimeout : Option Duration)
    (operation : Operation) : Except ErrorView AsyncRequest := do
  match ← typedRequest token operation with
  | .completion completion => return .completion (← enc.completion completion)
  | .heartbeat heartbeat =>
    return .heartbeat (← enc.asyncHeartbeat { heartbeat, heartbeatTimeout })

end OcamlTemporal.Activity
