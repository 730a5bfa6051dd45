import Mathlib.Data.List.Basic

/-!
# OcamlTemporal.Protocol.Values

The values that cross the bridge to Core, as `lib/protocol/workflow_protocol.ml`
declares them: payloads, times and failures. An OCaml `string` and an OCaml
`bytes` are both sequences of bytes, so both are `Bytes` here and a text may hold
any bytes; `validUtf8` is the check (`Codec.valid_utf_8`) that the boundary makes
where the protocol needs text.
-/

namespace OcamlTemporal.Protocol

abbrev Bytes := List UInt8

/-- Every test whether a text is in a list rests on this one proof. -/
instance : LawfulBEq Bytes := inferInstance

def text (s : String) : Bytes := s.toUTF8.data.toList

def isContinuation (b : UInt8) : Bool := 0x80 ≤ b && b ≤ 0xBF

/-- Whether the bytes are well-formed UTF-8 (`Codec.valid_utf_8`): no overlong
form, no surrogate, nothing above `U+10FFFF`. -/
def validUtf8 : Bytes → Bool
  | [] => true
  | b :: rest =>
    if b ≤ 0x7F then validUtf8 rest
    else if b < 0xC2 then false
    else
      match rest with
      | [] => false
      | c :: rest =>
        if b ≤ 0xDF then isContinuation c && validUtf8 rest
        else
          match rest with
          | [] => false
          | d :: rest =>
            if b ≤ 0xEF then
              -- the second byte excludes overlong forms and surrogates
              (if b = 0xE0 then 0xA0 ≤ c && c ≤ 0xBF
                else if b = 0xED then 0x80 ≤ c && c ≤ 0x9F
                else isContinuation c) && isContinuation d && validUtf8 rest
            else
              match rest with
              | [] => false
              | e :: rest =>
                b ≤ 0xF4 &&
                  (if b = 0xF0 then 0x90 ≤ c && c ≤ 0xBF
                    else if b = 0xF4 then 0x80 ≤ c && c ≤ 0x8F
                    else isContinuation c) &&
                  isContinuation d && isContinuation e && validUtf8 rest

structure Payload where
  metadata : List (Bytes × Bytes)
  data : Bytes
  deriving DecidableEq, Repr

structure Duration where
  seconds : Int64
  nanoseconds : Int
  deriving DecidableEq, Repr

/-- Why an activity or a child workflow is not retried. -/
inductive RetryState
  | unspecified
  | inProgress
  | nonRetryableFailure
  | timeout
  | maximumAttemptsReached
  | retryPolicyNotSet
  | internalServerError
  | cancelRequested
  deriving DecidableEq, Repr

inductive TimeoutType
  | unspecified
  | startToClose
  | scheduleToStart
  | scheduleToClose
  | heartbeat
  deriving DecidableEq, Repr

inductive ApplicationFailureCategory
  | unspecified
  | benign
  deriving DecidableEq, Repr

inductive NexusHandlerRetryBehavior
  | unspecified
  | retryable
  | nonRetryable
  deriving DecidableEq, Repr

/-- What kind of failure Core reports, with the fields of that kind. -/
inductive FailureInfo
  | application (typeName : Bytes) (nonRetryable : Bool) (details : List Payload)
      (category : ApplicationFailureCategory) (nextRetryDelay : Option Duration)
  | canceled (details : List Payload) (identity : Bytes)
  | terminated (identity : Bytes)
  | activity (scheduledEventId startedEventId : Int64) (identity activityType activityId : Bytes)
      (retryState : RetryState)
  | childWorkflow («namespace» workflowId runId workflowType : Bytes)
      (initiatedEventId startedEventId : Int64) (retryState : RetryState)
  | timeout (timeoutType : TimeoutType) (lastHeartbeatDetails : List Payload)
  | server (nonRetryable : Bool)
  | resetWorkflow (lastHeartbeatDetails : List Payload)
  | nexusOperation (scheduledEventId : Int64)
      (endpoint service operation operationId operationToken : Bytes)
  | nexusHandler (typeName : Bytes) (retryBehavior : NexusHandlerRetryBehavior)
  -- the Core failure carried no failure info
  | absent
  deriving DecidableEq, Repr

structure Failure where
  message : Bytes
  source : Bytes
  stackTrace : Bytes
  encodedAttributes : Option Payload
  cause : Option Failure
  info : FailureInfo

end OcamlTemporal.Protocol
