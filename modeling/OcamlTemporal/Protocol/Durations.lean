import OcamlTemporal.Protocol.Codec
import OcamlTemporal.Runtime.Activation

/-!
# OcamlTemporal.Protocol.Durations

Durations on their way through the SDK.

* The delay of a local activity's retry: decoded from an activation
  (`activity_resolution` of `lib/protocol/workflow_protocol.ml`), rounded to the
  runtime's milliseconds and split again for the timer command
  (`milliseconds_of_duration`, `duration_of_milliseconds` and `command_to_protocol` of
  `lib/runtime/native_execution.ml`), then encoded as a `start_timer` command.
* The timeouts that the public API shows: `info_duration` of
  `lib/runtime/native_activity_execution.ml` and `Info.duration` of
  `lib/public/workflow.ml`.

`Int64` wraps around as in the source. Nanoseconds are native integers that are
checked or clamped before they are used in arithmetic, so they are `Int`.
-/

namespace OcamlTemporal.Protocol.Durations

open Lib (Json)
open Codec

/-! ## The job of an activation -/

def completedResolution : Decoder ActivityResolution := fun path json => do
  let entries ← exactObject path ["kind", "payload"] json
  let value ← member path "payload" entries (nullable payload)
  return .completed value

def failureResolution (resolution : Failure → ActivityResolution) : Decoder ActivityResolution :=
  fun path json => do
    let entries ← exactObject path ["kind", "failure"] json
    let value ← member path "failure" entries failure
    return resolution value

def backoffResolution : Decoder ActivityResolution := fun path json => do
  let entries ← exactObject path
    ["kind", "attempt", "backoff_duration", "original_schedule_time"] json
  let attempt ← member path "attempt" entries uint32
  if attempt = 0 then
    throw (invalid (sub path "attempt") "local activity backoff attempt must be positive")
  else
    let backoffDuration ← member path "backoff_duration" entries duration
    let originalScheduleTime ← member path "original_schedule_time" entries (nullable timestamp)
    return .backoff attempt backoffDuration originalScheduleTime

def activityResolution : Decoder ActivityResolution :=
  ofKind "unknown activity resolution kind"
    [("completed", completedResolution), ("failed", failureResolution .failed),
      ("cancelled", failureResolution .cancelled), ("backoff", backoffResolution)]

/-! ## To the runtime and back -/

def validateSequence (path : Bytes) (sequence : Int64) : Except Control.Error Unit :=
  if sequence < 0 then .error (invalid path "sequence number must not be negative")
  else if sequence > 4294967295 then
    .error (invalid path "sequence number is outside unsigned 32-bit range")
  else .ok ()

/-- Nanoseconds as milliseconds, rounded up. -/
def fractionMs (nanoseconds : Int) : Int64 :=
  Int64.ofInt ((nanoseconds + 999999).tdiv 1000000)

def millisecondsOfDuration (path : Bytes) (d : Duration) : Except Control.Error Int64 :=
  if d.seconds < 0 then .error (invalid path "duration must not be negative")
  else if d.nanoseconds < 0 ∨ d.nanoseconds ≥ 1000000000 then
    .error (invalid path "duration nanoseconds are outside protobuf range")
  else if d.seconds > Int64.maxValue / 1000 then
    .error (invalid path "duration exceeds runtime timer range")
  else
    let secondsMs := d.seconds * 1000
    let fractionalMs := fractionMs d.nanoseconds
    if secondsMs > Int64.maxValue - fractionalMs then
      .error (invalid path "duration exceeds runtime timer range")
    else .ok (secondsMs + fractionalMs)

/-- The runtime's job for a retry delay (the `Backoff` branch of `activation_job`). -/
def backoffJob (path : Bytes) (seq attempt : Int64) (backoffDuration : Duration)
    (originalScheduleTime : Option Timestamp) : Except Control.Error Job := do
  validateSequence (sub path "seq") seq
  if attempt ≤ 0 then
    throw (invalid (path ++ text ".result.attempt")
      "local activity backoff attempt must be positive")
  else
    let backoffMilliseconds ←
      millisecondsOfDuration (path ++ text ".result.backoff_duration") backoffDuration
    return .resolveLocalActivityBackoff seq.toInt.toNat attempt.toInt backoffMilliseconds.toInt
      (originalScheduleTime.map fun time => ⟨time.seconds.toInt, time.nanoseconds⟩)

def durationOfMilliseconds (path : Bytes) (milliseconds : Int64) : Except Control.Error Duration :=
  if milliseconds < 0 then .error (invalid path "timer duration must not be negative")
  else
    let seconds := milliseconds / 1000
    let remainder := milliseconds % 1000
    let nanoseconds := (remainder * 1000000).toInt
    .ok ⟨seconds, nanoseconds⟩

/-- The command of a timer (the `Start_timer` branch of `command_to_protocol`). -/
def startTimerCommand (seq milliseconds : Int64) : Except Control.Error CompletionCommand := do
  validateSequence (text "$.command.seq") seq
  let startToFireTimeout ← durationOfMilliseconds (text "$.command.milliseconds") milliseconds
  return .startTimer seq startToFireTimeout

/-! ## The command of a completion -/

/-- The `start_timer` branch of `completion_command_json`. -/
def startTimerJson (seq : Int64) (startToFireTimeout : Duration) : Json :=
  .obj
    [(text "kind", .str (text "start_timer")), (text "seq", .int seq.toInt),
      (text "start_to_fire_timeout", durationJson startToFireTimeout)]

/-- The `start_timer` branch of `completion_command`; the encoder applies it to the
document it has built. -/
def startTimer : Decoder CompletionCommand := fun path json => do
  let entries ← exactObject path ["kind", "seq", "start_to_fire_timeout"] json
  let seq ← member path "seq" entries uint32
  let startToFireTimeout ← member path "start_to_fire_timeout" entries duration
  return .startTimer seq startToFireTimeout

/-! ## Public durations -/

/-- The largest public duration, in milliseconds. -/
def maximumMs : Int64 := 315576000000999

/-- `Temporal_base.Duration.of_ms`; `Invalid_argument` for a negative length. -/
def baseOfMs (milliseconds : Int64) : Except String Int64 :=
  if milliseconds < 0 then .error "Temporal duration cannot be negative" else .ok milliseconds

def publicOfMs (milliseconds : Int64) : Except String Int64 :=
  if milliseconds < 0 then .error "Temporal duration cannot be negative"
  else if milliseconds > maximumMs then
    .error "Temporal duration exceeds the protobuf maximum of 10,000 years"
  else .ok milliseconds

/-- The seconds and the nanoseconds as both conversions clamp them. -/
def clampedSeconds (d : Duration) : Int64 := max 0 d.seconds

def clampedFractionMs (d : Duration) : Int64 := fractionMs (max 0 (min 999999999 d.nanoseconds))

/-- The largest seconds that `info_duration` multiplies. -/
def maximumSeconds : Int64 := Int64.maxValue / 1000 - 1

def infoMilliseconds (d : Duration) : Int64 :=
  if clampedSeconds d > maximumSeconds then Int64.maxValue
  else clampedSeconds d * 1000 + clampedFractionMs d

/-- The conversion behind `Temporal.Activity.Info`. -/
def infoDuration (d : Duration) : Except String Int64 :=
  baseOfMs (min (infoMilliseconds d) maximumMs)

def workflowInfoMilliseconds (d : Duration) : Int64 :=
  if clampedSeconds d > maximumMs / 1000 then maximumMs
  else clampedSeconds d * 1000 + clampedFractionMs d

/-- The conversion behind `Temporal.Workflow.Info`. -/
def workflowInfoDuration (d : Duration) : Except String Int64 :=
  publicOfMs (min (workflowInfoMilliseconds d) maximumMs)

end OcamlTemporal.Protocol.Durations
