import Mathlib
import OcamlTemporal.Protocol.Values

/-!
# OcamlTemporal.Mailbox.ClientAwait

Waiting for a submitted client call (`Client_call` of
`lib/sdk_supervisor/sdk_supervisor.ml`) and the deadline that the public client gives
it (`wait_deadline` of `lib/public/client.ml`).

* The completion source and the clock are the caller's: `World` says what each call
  answers, from a state of its own, and each of them may raise.
* The loop ends only when the source answers or a deadline passes, so it takes fuel;
  `Stop.running` is a loop that has not ended yet.
* `State.trace`, newest event first, is not in the source: it records the calls, for
  the statements about whole runs.
-/

namespace OcamlTemporal.ClientAwait

open Protocol (Bytes)

inductive Status
  | invalidArgument
  | abiMismatch
  | panic
  | internal
  | invalidState
  | configuration
  | connection
  | worker
  | outstandingTasks
  | notReady
  | protocol
  | alreadyStarted
  | retryable
  | asyncHeartbeatRejected
  | resourceExhausted
  | unknown (code : Int)
  deriving DecidableEq, Repr

structure BridgeError where
  status : Status
  message : String
  deriving DecidableEq, Repr

/-- What a poll of the completion source answers. -/
abbrev Answer := Except BridgeError Bytes

inductive Failure
  | closed
  | failed (error : BridgeError)
  deriving DecidableEq, Repr

/-- A call of the loop to the outside. -/
inductive Event
  | clock (nowNs : Int64)
  | clockRaised
  -- a poll with its answer, none if it raised
  | polled (timeoutMs : Int) (answer : Option Answer)
  | released
  | decoded (outcome : Answer)

section

variable (World Exn Value : Type)

/-- The behaviour of what the loop calls. The decoder is pure but may raise. -/
structure Source where
  poll : World → Int → Except Exn Answer × World
  release : World → Except Exn Unit × World
  nowNs : World → Except Exn Int64 × World
  decode : Answer → Except Exn (Except BridgeError Value)

structure State where
  world : World
  retired : Bool
  trace : List Event

inductive Stop
  | raised (exn : Exn)
  | running

end

variable {World Exn Value : Type}

abbrev Run (World Exn α : Type) := EStateM (Stop Exn) (State World) α

def expiredDeadlineError : BridgeError :=
  ⟨.connection, "\x7b\"kind\":\"rpc\",\"code\":\"deadline_exceeded\"\x7d"⟩

def remainingMs (nowNs deadlineNs : Int64) : Option Int64 :=
  let remainingNs := deadlineNs - nowNs
  if remainingNs ≤ 0 then none else some ((remainingNs + 999999) / 1000000)

namespace Source

variable (source : Source World Exn Value)

def callPoll (timeoutMs : Int) : Run World Exn Answer := fun s =>
  match source.poll s.world timeoutMs with
  | (.ok answer, world) =>
    .ok answer { s with world, trace := .polled timeoutMs (some answer) :: s.trace }
  | (.error exn, world) =>
    .error (.raised exn) { s with world, trace := .polled timeoutMs none :: s.trace }

def callRelease : Run World Exn Unit := fun s =>
  match source.release s.world with
  | (.ok (), world) => .ok () { s with world, trace := .released :: s.trace }
  | (.error exn, world) => .error (.raised exn) { s with world, trace := .released :: s.trace }

def callNow : Run World Exn Int64 := fun s =>
  match source.nowNs s.world with
  | (.ok now, world) => .ok now { s with world, trace := .clock now :: s.trace }
  | (.error exn, world) => .error (.raised exn) { s with world, trace := .clockRaised :: s.trace }

def releaseQuietly : Run World Exn Unit := tryCatch source.callRelease fun _ => pure ()

def retire : Run World Exn Unit := modify fun s => { s with retired := true }

def decoded (outcome : Answer) : Run World Exn (Except Failure Value) := fun s =>
  let s := { s with trace := .decoded outcome :: s.trace }
  match source.decode outcome with
  | .error exn => .error (.raised exn) s
  | .ok (.ok value) => .ok (.ok value) s
  | .ok (.error error) => .ok (.error (.failed error)) s

/-- The end of a poll that is not `Not_ready`. -/
def answered (answer : Answer) : Run World Exn (Except Failure Value) := do
  retire
  match answer with
  | .error error =>
    if error.status = .invalidState then return .error .closed else source.decoded answer
  | .ok _ => source.decoded answer

def isNotReady : Answer → Bool
  | .error error => error.status = .notReady
  | .ok _ => false

/-- The length of the next poll, none once the deadline has passed. -/
def slice (sliceMs : Int) : Option Int64 → Run World Exn (Option Int)
  | none => return some sliceMs
  | some deadlineNs => do
    let now ← source.callNow
    match remainingMs now deadlineNs with
    | none => return none
    | some remaining =>
      return some (if remaining < Int64.ofInt sliceMs then remaining.toInt else sliceMs)

/-- The last look at the source before the call is given up. -/
def expire : Run World Exn (Except Failure Value) := do
  let answer ← source.callPoll 0
  if isNotReady answer then
    retire
    source.releaseQuietly
    source.decoded (.error expiredDeadlineError)
  else source.answered answer

/-- One bounded wait; `again` is the loop. -/
def pollSlice (again : Run World Exn (Except Failure Value)) (slice : Int) :
    Run World Exn (Except Failure Value) := do
  let answer ← source.callPoll slice
  if isNotReady answer then again else source.answered answer

def loop (sliceMs : Int) (deadlineNs : Option Int64) : Nat → Run World Exn (Except Failure Value)
  | 0 => throw .running
  | fuel + 1 => do
    match ← source.slice sliceMs deadlineNs with
    | none => source.expire
    | some slice => source.pollSlice (loop sliceMs deadlineNs fuel) slice

def finalize : Run World Exn Unit := fun s =>
  if s.retired then .ok () s else source.releaseQuietly s

/-- `Fun.protect`: the finalizer runs however the body is left, and does not raise. -/
def protect (body : Run World Exn (Except Failure Value)) : Run World Exn (Except Failure Value) :=
  fun s =>
    match body s with
    | .error .running s => .error .running s
    | .error (.raised exn) s => (do source.finalize; throw (.raised exn) : Run World Exn _) s
    | .ok result s => (do source.finalize; return result : Run World Exn _) s

/-- `await` of an in-flight call; a completed one has its result already. -/
def await (sliceMs : Int) (deadlineNs : Option Int64) (fuel : Nat) :
    Run World Exn (Except Failure Value) :=
  source.protect (source.loop sliceMs deadlineNs fuel)

end Source

/-- The expiry of a caller's bound; none for a bound that cannot elapse, and a defect
for one that is not positive. -/
def waitDeadline (nowNs : Int64) (timeoutMs : Option Int64) : Except String (Option Int64) :=
  match timeoutMs with
  | none => .ok none
  | some milliseconds =>
    if milliseconds ≤ 0 then .error "wait timeout must be positive"
    else if milliseconds ≥ (Int64.maxValue - nowNs) / 1000000 then .ok none
    else .ok (some (nowNs + milliseconds * 1000000))

end OcamlTemporal.ClientAwait
