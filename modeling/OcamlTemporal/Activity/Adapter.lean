import OcamlTemporal.Activity.AsyncHandle
import OcamlTemporal.Lib.Transitions

/-!
# OcamlTemporal.Activity.Adapter

The activity lane of the native adapter
(`lib/runtime/native_activity_execution.ml`): it polls tasks, runs callbacks,
records a completion for every start and submits it until Core has accepted it.
The adapter's mutex serializes `poll`, `drain` and `discard`, and a callback runs
inside the poll that dispatched it; only the delivery sweeps of its heartbeats
interleave with it.

* **`Adapter`** is the state, **`Adapter.step`** its steps and **`adapterSystem`** the
  transition system. What the supervisor and user code do comes with the label: the
  task a poll finds, what a callback returns, what the codecs make of it, how Core
  answers a submission.
* A sweep is a sequence of steps, one for each task it takes, and a drain a
  sequence of steps, one for each completion it submits: nothing else of the
  adapter can run in between.
* `Adapter.trace` is not in the source: it records what happened, for the statements
  about whole runs.
-/

namespace OcamlTemporal.Activity

open OcamlTemporal.Protocol

/-! ## Tasks -/

/-- The fields of a start task that decide how it is dispatched. -/
structure ActivityStart where
  activityType : Bytes
  isLocal : Bool
  deriving DecidableEq, Repr

/-- Core's independent cancellation flags. -/
structure CancellationDetails where
  isNotFound : Bool
  isCancelled : Bool
  isPaused : Bool
  isTimedOut : Bool
  isWorkerShutdown : Bool
  isReset : Bool
  deriving DecidableEq, Repr

structure ActivityCancel where
  reason : CancelReason
  details : Option CancellationDetails
  deriving DecidableEq, Repr

inductive TaskVariant
  | start (start : ActivityStart)
  | cancel (cancel : ActivityCancel)
  deriving DecidableEq, Repr

structure ActivityTask where
  taskToken : Bytes
  variant : TaskVariant
  deriving DecidableEq, Repr

/-! ## Completions of the adapter -/

/-- The failure of an attempt that an operator paused or reset. -/
def interruptionFailure (details : List Payload) (cancel : ActivityCancel) : Option Failure :=
  let failure := fun (typeName message : String) =>
    some (plainFailure (text message) (text "ocaml-temporal")
      (.application (text typeName) false details .unspecified none))
  match cancel.reason with
  | .paused => failure "ActivityPause" "activity attempt stopped because it was paused"
  | .reset => failure "ActivityReset" "activity attempt stopped because it was reset"
  | .requested | .notFound | .timedOut | .workerShutdown => none

inductive CompletionKind
  | succeeded
  | failed
  | cancelled
  | deferred
  deriving DecidableEq, Repr

inductive RejectionOrigin
  | applicationFailure
  | sdkRejection
  deriving DecidableEq, Repr

/-- What the caller observes once a lease is acknowledged. -/
inductive AcceptedResult
  | completed (kind : CompletionKind) (details : Option CancellationDetails)
  | rejected (error : ErrorView) (origin : RejectionOrigin)
  | asyncHandoff (handle : Handle)

def AcceptedResult.isHandoff : AcceptedResult → Bool
  | asyncHandoff _ => true
  | completed _ _ | rejected _ _ => false

/-- The result and the outcome of a cancellation whose callback never ran. -/
def cancelledCompletion (cancel : ActivityCancel) : CompletionResult × AcceptedResult :=
  match interruptionFailure [] cancel with
  | some failure => (.failed failure, .completed .failed cancel.details)
  | none =>
    (.cancelled (cancellationFailure [] cancel.reason), .completed .cancelled cancel.details)

/-- The encoder of completions. It looks at the token on its own; a token that it can
write at all can be written with the failure that reports an encoding error and
with a cancellation that carries no details. -/
structure CompletionEncoder where
  encode : Completion → Except ErrorView Bytes
  acceptsToken : Bytes → Bool
  token_of_ok : ∀ {token result encoded}, encode ⟨token, result⟩ = .ok encoded →
    acceptsToken token = true
  encodes_failure : ∀ {token result e}, acceptsToken token = true →
    encode ⟨token, result⟩ = .error e →
      ∃ encoded, encode ⟨token, .failed
        (failureOfError (text "ocaml_temporal_native_activity") true e)⟩ = .ok encoded
  encodes_cancelled : ∀ {token}, acceptsToken token = true → ∀ cancel : ActivityCancel,
    ∃ encoded, encode ⟨token, (cancelledCompletion cancel).1⟩ = .ok encoded

def undispatchedLocalCancellation : Failure :=
  plainFailure (text "local activity was not dispatched before the worker shut down")
    (text "ocaml-temporal") (.canceled [] (text "ocaml-temporal"))

def undispatchedFailure : Failure :=
  plainFailure (text "activity task was not dispatched before the worker shut down")
    (text "ocaml-temporal")
    (.application (text "ocaml_temporal_worker_shutdown") false [] .unspecified none)

def callbackExceptionFailure (diagnostic : ErrorView) (backtrace : Bytes) : Failure where
  message := diagnostic.message
  source := text "ocaml-temporal"
  stackTrace := boundedText 8192 [] backtrace
  encodedAttributes := none
  cause := none
  info := .application (text "ocaml_exception") true [] .unspecified none

def exceptionError (path message : Bytes) : ErrorView :=
  makeError path false (text "ocaml_exception") message

/-- A completion that Core is not known to have accepted. -/
structure Lease where
  token : Bytes
  activityType : Option Bytes
  encoded : Bytes
  acceptedResult : AcceptedResult
  retryRefusal : Option ErrorView

inductive Outcome
  | notReady
  | completed (activityType : Option Bytes) (kind : CompletionKind)
      (details : Option CancellationDetails)
  | rejected (activityType : Option Bytes) (error : ErrorView)

/-! ## The state -/

/-- Work that a sweep took and that does not belong to the running attempt. -/
inductive DeferredWork
  | task (task : ActivityTask)
  | pollError (error : ErrorView)

/-- How Core answers a submission. -/
inductive Answer
  | accepted
  | rejected (retryable : Bool) (code message : Bytes)
  | raised (retryable : Bool) (message : Bytes)
  deriving DecidableEq, Repr

def Answer.isRetryable : Answer → Bool
  | accepted => false
  | rejected retryable _ _ | raised retryable _ => retryable

/-- The attempt whose callback is executing. A synchronous one has a context, whose
heartbeats sweep and whose cell holds the cancellation delivered to it. -/
structure Running where
  token : Bytes
  start : ActivityStart
  isAsync : Bool
  observed : Option ActivityCancel

inductive LaneState
  | idle (returned : Option (Except ErrorView Outcome))
  | callback (running : Running)
  | draining

inductive Event
  | delivered (task : ActivityTask)
  | ran (token : Bytes)
  | observed (token : Bytes) (cancel : ActivityCancel)
  | built (token : Bytes) (result : CompletionResult)
  | submitted (token encoded : Bytes) (handoff : Bool) (answer : Answer)
  | handedOff (token : Bytes)
  | asyncEnded (token : Bytes)
  | discarded (tokens asyncTokens : List Bytes)

/-- The adapter; `leases` is kept in the order of the tokens. -/
structure Adapter where
  leases : List Lease
  asyncLeases : List Bytes
  deferred : List DeferredWork
  lane : LaneState
  trace : List Event

structure Definition where
  isAsync : Bool
  executable : Bool

namespace Adapter

def note (s : Adapter) (e : Event) : Adapter := { s with trace := s.trace ++ [e] }

def insertLease (lease : Lease) : List Lease → List Lease
  | [] => [lease]
  | l :: ls => if lease.token < l.token then lease :: l :: ls else l :: insertLease lease ls

def removeLease (token : Bytes) (ls : List Lease) : List Lease := ls.filter (·.token ≠ token)

def refuse (s : Adapter) (token : Bytes) (e : ErrorView) : Adapter :=
  { s with
    leases := s.leases.map fun l =>
      if l.token = token then { l with retryRefusal := some e } else l }

def startTokens (work : List DeferredWork) : List Bytes :=
  work.filterMap fun
    | .task ⟨token, .start _⟩ => some token
    | _ => none

def cancelsFor (token : Bytes) (work : List DeferredWork) : List ActivityCancel :=
  work.filterMap fun
    | .task ⟨t, .cancel cancel⟩ => if t = token then some cancel else none
    | _ => none

/-! ## Submitting completions -/

def admitAsyncLease (s : Adapter) (token : Bytes) (handle : Handle) : Except ErrorView Adapter :=
  if token ∈ s.asyncLeases then
    .error (makeError (text "$.async_handle") false (text "duplicate_async_lease")
      (text "native accepted an asynchronous activity token twice"))
  else
    match handle.activate with
    | .ok _ => .ok ({ s with asyncLeases := s.asyncLeases ++ [token] }.note (.handedOff token))
    | .error e => .error (applicationError (text "$.async_handle.activate") e)

/-- The failure of a submission; one that is not retryable is refused from now on. -/
def failSubmission (s : Adapter) (lease : Lease) (e : ErrorView) :
    Adapter × Except ErrorView Outcome :=
  (if e.retryable then s else s.refuse lease.token e, .error e)

/-- `submit_lease`: submits the retained bytes once. -/
def submitLease (s : Adapter) (lease : Lease) (answer : Answer) :
    Adapter × Except ErrorView Outcome :=
  let s := s.note (.submitted lease.token lease.encoded lease.acceptedResult.isHandoff answer)
  match answer with
  | .rejected retryable code message =>
    let source := makeError (text "$.completion") retryable code message
    s.failSubmission lease (makeError (text "$.completion") retryable (text "completion_failed")
      (text "supervisor rejected completion (" ++ source.code ++ text "): " ++ source.message))
  | .raised retryable message =>
    s.failSubmission lease (makeError (text "$.completion") retryable (text "completion_failed")
      (text "supervisor completion raised: " ++ (exceptionError (text "$") message).message))
  | .accepted =>
    match lease.acceptedResult with
    | .completed kind details =>
      ({ s with leases := removeLease lease.token s.leases },
        .ok (.completed lease.activityType kind details))
    | .rejected e _ =>
      ({ s with leases := removeLease lease.token s.leases }, .ok (.rejected lease.activityType e))
    | .asyncHandoff handle =>
      match s.admitAsyncLease lease.token handle with
      | .error e => s.failSubmission lease { e with retryable := false }
      | .ok s =>
        ({ s with leases := removeLease lease.token s.leases },
          .ok (.completed lease.activityType .deferred none))

/-- `finish_lease`: submits a lease unless its retry was refused. -/
def finishLease (s : Adapter) (lease : Lease) (answer : Answer) :
    Adapter × Except ErrorView Outcome :=
  match lease.retryRefusal with
  | some e => (s, .error e)
  | none => s.submitLease lease answer

section

variable (enc : CompletionEncoder)

/-- The bytes of a completion, or of the failure that replaces one that cannot be
encoded; a handoff that is replaced does not admit its handle. -/
def encodeOrReplace (token : Bytes) (result : CompletionResult) (accepted : AcceptedResult) :
    Except ErrorView (Bytes × AcceptedResult) :=
  match enc.encode ⟨token, result⟩ with
  | .ok encoded => .ok (encoded, accepted)
  | .error e =>
    match enc.encode ⟨token,
      .failed (failureOfError (text "ocaml_temporal_native_activity") true e)⟩ with
    | .ok encoded => .ok (encoded, .rejected e .sdkRejection)
    | .error e => .error e

/-- `admit_completion`: records one completion without submitting it. -/
def admitCompletion (s : Adapter) (token : Bytes) (activityType : Option Bytes)
    (result : CompletionResult) (accepted : AcceptedResult) : Adapter × Except ErrorView Lease :=
  let s := s.note (.built token result)
  match encodeOrReplace enc token result accepted with
  | .error e => (s, .error e)
  | .ok (encoded, acceptedResult) =>
    if token ∈ s.leases.map Lease.token then
      (s, .error (makeError (text "$.task_token") false (text "duplicate_task_token")
        (text "native supervisor delivered an already leased activity token")))
    else
      let lease := { token, activityType, encoded, acceptedResult, retryRefusal := none }
      ({ s with leases := insertLease lease s.leases }, .ok lease)

/-- `enqueue_and_finish`: records a completion and submits it. -/
def enqueueAndFinish (s : Adapter) (token : Bytes) (activityType : Option Bytes)
    (result : CompletionResult) (accepted : AcceptedResult) (answer : Answer) :
    Adapter × Except ErrorView Outcome :=
  match s.admitCompletion enc token activityType result accepted with
  | (s, .error e) => (s, .error e)
  | (s, .ok lease) => s.finishLease lease answer

def rejectTaskWithFailure (s : Adapter) (token : Bytes) (activityType : Option Bytes)
    (origin : RejectionOrigin) (failure : Failure) (e : ErrorView) (answer : Answer) :
    Adapter × Except ErrorView Outcome :=
  s.enqueueAndFinish enc token activityType (.failed failure) (.rejected e origin) answer

/-- `reject_task`: a failure that another attempt would repeat. -/
def rejectTask (s : Adapter) (token : Bytes) (activityType : Option Bytes) (e : ErrorView)
    (answer : Answer) : Adapter × Except ErrorView Outcome :=
  s.rejectTaskWithFailure enc token activityType .sdkRejection
    (failureOfError (text "ocaml_temporal_native_activity") true e) e answer

/-- `reject_unrunnable_task`: another worker may be able to run the task. -/
def rejectUnrunnableTask (s : Adapter) (token : Bytes) (start : ActivityStart) (typeName : Bytes)
    (e : ErrorView) (answer : Answer) : Adapter × Except ErrorView Outcome :=
  s.rejectTaskWithFailure enc token (some start.activityType) .sdkRejection
    (failureOfError typeName start.isLocal e) e answer

def processCancel (s : Adapter) (token : Bytes) (activityType : Option Bytes)
    (cancel : ActivityCancel) (answer : Answer) : Adapter × Except ErrorView Outcome :=
  let (result, accepted) := cancelledCompletion cancel
  s.enqueueAndFinish enc token activityType result accepted answer

/-! ## Running callbacks -/

/-- Which part of a start task could not be converted. -/
inductive DecodeFailure
  | inputRejected (e : ErrorView)
  | contextRejected (e : ErrorView)
  /-- The conversion raised; the guard of `process_start` turns that into a failure. -/
  | raised (message : Bytes)

/-- What a callback does, with what the output codec makes of its output. -/
inductive CallbackOutcome
  | raised (message backtrace : Bytes)
  | failed (error : Error)
  | output (encoded : Except Error Payload)
  | codecRaised (message : Bytes)
  /-- Only an asynchronous callback; `own` says that it returned its own handle. -/
  | willCompleteAsync (own : Bool)

def findDefinition (definitions : List (Bytes × Definition)) (activityType : Bytes) :
    Except ErrorView Definition :=
  match definitions.find? (·.1 = activityType) with
  | some (_, definition) => .ok definition
  | none =>
    .error (makeError (text "$.variant.activity_type") false (text "unknown_activity_type")
      (text "activity type " ++ activityType ++
        text " is not registered on this worker; registered activity types: [" ++
        (text ", ").intercalate (definitions.map Prod.fst) ++ text "]"))

def ret (r : Adapter × Except ErrorView Outcome) : Adapter := { r.1 with lane := .idle (some r.2) }

/-- The failures of a start before its callback: `reject_decode_failure` and the
guard. -/
def rejectDecodeFailure (s : Adapter) (token : Bytes) (start : ActivityStart) (answer : Answer) :
    DecodeFailure → Adapter × Except ErrorView Outcome
  | .inputRejected e =>
    s.rejectUnrunnableTask enc token start (text "ocaml_temporal_native_activity") e answer
  | .contextRejected e => s.rejectTask enc token (some start.activityType) e answer
  | .raised message =>
    s.rejectTask enc token (some start.activityType)
      (exceptionError (text "$.implementation") message) answer

/-- `process_start` and `process_async_start` up to the callback. -/
def processStart (definitions : List (Bytes × Definition)) (s : Adapter) (token : Bytes)
    (start : ActivityStart) (decoded : Except DecodeFailure Unit) (answer : Answer) : Adapter :=
  match findDefinition definitions start.activityType with
  | .error e => ret (s.rejectUnrunnableTask enc token start (text "NotFoundError") e answer)
  | .ok definition =>
    -- the asynchronous path decodes first, the synchronous one looks for the callback first
    if definition.isAsync then
      match decoded with
      | .error failure => ret (s.rejectDecodeFailure enc token start answer failure)
      | .ok () =>
        if definition.executable then
          { s.note (.ran token) with lane := .callback ⟨token, start, true, none⟩ }
        else
          ret (s.rejectTask enc token (some start.activityType)
            (makeError (text "$.variant.activity_type") false (text "not_executable")
              (text "registered asynchronous activity has no local implementation")) answer)
    else if definition.executable then
      match decoded with
      | .error failure => ret (s.rejectDecodeFailure enc token start answer failure)
      | .ok () => { s.note (.ran token) with lane := .callback ⟨token, start, false, none⟩ }
    else
      ret (s.rejectTask enc token (some start.activityType)
        (makeError (text "$.variant.activity_type") false (text "not_executable")
          (text "registered activity has no local implementation")) answer)

/-- Reports the error that a callback returned as a failure. -/
def failCallback (s : Adapter) (token : Bytes) (activityType : Option Bytes) (e : Error)
    (answer : Answer) : Adapter × Except ErrorView Outcome :=
  let diagnostic := applicationError (text "$.implementation") e
  match failureOfApplicationError diagnostic e with
  | .error e => s.rejectTask enc token activityType e answer
  | .ok failure =>
    s.rejectTaskWithFailure enc token activityType .applicationFailure failure diagnostic answer

def completeAcknowledgedCancellation (s : Adapter) (token : Bytes) (activityType : Option Bytes)
    (cancel : ActivityCancel) (e : Error) (answer : Answer) :
    Adapter × Except ErrorView Outcome :=
  match protocolPayloads (text "$.completion.result.info.details") e.details with
  | .error e => s.rejectTask enc token activityType e answer
  | .ok details =>
    match interruptionFailure details cancel with
    | some failure =>
      s.enqueueAndFinish enc token activityType (.failed failure)
        (.completed .failed cancel.details) answer
    | none =>
      s.enqueueAndFinish enc token activityType
        (.cancelled (cancellationFailure details cancel.reason))
        (.completed .cancelled cancel.details) answer

def completeCallback (s : Adapter) (token : Bytes) (activityType : Option Bytes)
    (encoded : Except Error Payload) (answer : Answer) : Adapter × Except ErrorView Outcome :=
  match encoded with
  | .error e =>
    s.rejectTask enc token activityType (applicationError (text "$.implementation.output") e) answer
  | .ok payload =>
    match protocolPayload (text "$.completion.result") payload with
    | .error e => s.rejectTask enc token activityType e answer
    | .ok payload =>
      s.enqueueAndFinish enc token activityType (.completed payload) (.completed .succeeded none)
        answer

/-- Hands an asynchronous attempt off to its handle, which is dormant until here. -/
def handOff (s : Adapter) (r : Running) (own : Bool) (answer : Answer) :
    Adapter × Except ErrorView Outcome :=
  let activityType := some r.start.activityType
  if r.start.isLocal then
    s.rejectTask enc r.token activityType
      (makeError (text "$.implementation.async_handle") false (text "local_async_unsupported")
        (text "local activities cannot be completed asynchronously")) answer
  else
    match Handle.create.prepareHandoff own with
    | .error e =>
      s.rejectTask enc r.token activityType
        (applicationError (text "$.implementation.async_handle") e) answer
    | .ok handle =>
      s.enqueueAndFinish enc r.token activityType .willCompleteAsync (.asyncHandoff handle) answer

/-- Classifies the outcome of a callback after its attempt has ended. -/
def finishCallback (s : Adapter) (r : Running) (answer : Answer) :
    CallbackOutcome → Option (Adapter × Except ErrorView Outcome)
  | .raised message backtrace =>
    let diagnostic := exceptionError (text "$.implementation") message
    some (s.rejectTaskWithFailure enc r.token (some r.start.activityType) .sdkRejection
      (callbackExceptionFailure diagnostic backtrace) diagnostic answer)
  | .failed e =>
    match r.observed with
    | some cancel =>
      -- a cancelled error acknowledges the cancellation that was delivered
      if e.category = .cancelled then
        some (s.completeAcknowledgedCancellation enc r.token (some r.start.activityType) cancel e
          answer)
      else some (s.failCallback enc r.token (some r.start.activityType) e answer)
    | none => some (s.failCallback enc r.token (some r.start.activityType) e answer)
  | .output encoded =>
    some (s.completeCallback enc r.token (some r.start.activityType) encoded answer)
  | .codecRaised message =>
    some (s.rejectTask enc r.token (some r.start.activityType)
      (exceptionError (text "$.implementation") message) answer)
  | .willCompleteAsync own => if r.isAsync then some (s.handOff enc r own answer) else none

/-! ## Polls, sweeps and drains -/

/-- `take_deferred_cancel`: removes every deferred cancellation of the token and
returns the first. -/
def takeDeferredCancel (s : Adapter) (token : Bytes) : Adapter × Option ActivityCancel :=
  let kept := s.deferred.filter fun
    | .task ⟨t, .cancel _⟩ => t ≠ token
    | _ => true
  ({ s with deferred := kept }, (cancelsFor token s.deferred).head?)

def processTask (definitions : List (Bytes × Definition)) (s : Adapter) (task : ActivityTask)
    (decoded : Except DecodeFailure Unit) (answer : Answer) : Adapter :=
  if task.taskToken.length = 0 then
    ret (s, .error (makeError (text "$.task_token") false (text "invalid_message")
      (text "activity task token must not be empty")))
  else
    match task.variant with
    | .start start =>
      match s.takeDeferredCancel task.taskToken with
      | (s, some cancel) =>
        ret (s.processCancel enc task.taskToken (some start.activityType) cancel answer)
      | (s, none) => s.processStart enc definitions task.taskToken start decoded answer
    | .cancel cancel => ret (s.processCancel enc task.taskToken none cancel answer)

/-- What `try_poll_activity` does. -/
inductive Polled
  | ready (task : ActivityTask)
  | notReady
  | failed (e : ErrorView)

/-- `poll` on an idle lane: a retained completion first, then deferred work, then a
new task. -/
def poll (definitions : List (Bytes × Definition)) (s : Adapter) (polled : Polled)
    (decoded : Except DecodeFailure Unit) (answer : Answer) : Adapter :=
  match s.leases with
  | lease :: _ => ret (s.finishLease lease answer)
  | [] =>
    match s.deferred with
    | .task task :: rest =>
      { s with deferred := rest }.processTask enc definitions task decoded answer
    | .pollError e :: rest => ret ({ s with deferred := rest }, .error e)
    | [] =>
      match polled with
      | .ready task => (s.note (.delivered task)).processTask enc definitions task decoded answer
      | .notReady => ret (s, .ok .notReady)
      | .failed e => ret (s, .error e)

def routeSweptTask (s : Adapter) (r : Running) (task : ActivityTask) : Adapter :=
  match task.variant with
  | .cancel cancel =>
    if r.token = task.taskToken then
      match r.observed with
      | some _ => s
      | none =>
        { s.note (.observed r.token cancel) with
          lane := .callback { r with observed := some cancel } }
    else { s with deferred := s.deferred ++ [.task task] }
  | .start _ => { s with deferred := s.deferred ++ [.task task] }

def retiredCompletion (work : List DeferredWork) (token : Bytes) (start : ActivityStart) :
    CompletionResult × AcceptedResult :=
  match (cancelsFor token work).head? with
  | some cancel => cancelledCompletion cancel
  | none =>
    if start.isLocal then (.cancelled undispatchedLocalCancellation, .completed .cancelled none)
    else (.failed undispatchedFailure, .completed .failed none)

/-- The fold of `retire_deferred`; after an admission error the rest is skipped. -/
def retireAll (work : List DeferredWork) : List DeferredWork → Adapter →
    Adapter × Except ErrorView Unit
  | [], s => (s, .ok ())
  | .task ⟨token, .start start⟩ :: rest, s =>
    let (result, accepted) := retiredCompletion work token start
    match s.admitCompletion enc token (some start.activityType) result accepted with
    | (s, .ok _) => retireAll work rest s
    | (s, .error e) => (s, .error e)
  | _ :: rest, s => retireAll work rest s

/-- `retire_deferred`: converts deferred work into recorded completions. -/
def retireDeferred (s : Adapter) : Adapter × Except ErrorView Unit :=
  retireAll enc s.deferred s.deferred { s with deferred := [] }

end

/-! ## Steps -/

end Adapter

inductive AdapterLabel
  | poll (polled : Adapter.Polled) (decoded : Except Adapter.DecodeFailure Unit) (answer : Answer)
  | sweepTask (task : ActivityTask)
  | sweepError (e : ErrorView)
  | callbackEnds (outcome : Adapter.CallbackOutcome) (answer : Answer)
  | drain
  | drainNext (answer : Answer)
  /-- An async lease ends: its handle was finished or retired, or it expired. -/
  | asyncEnds (token : Bytes)
  | discard

namespace Adapter

variable (enc : CompletionEncoder) (definitions : List (Bytes × Definition))

def step (s : Adapter) : AdapterLabel → Option Adapter
  | .poll polled decoded answer =>
    match s.lane with
    | .idle _ => some (s.poll enc definitions polled decoded answer)
    | _ => none
  | .sweepTask task =>
    match s.lane with
    | .callback r =>
      if r.isAsync then none else some ((s.note (.delivered task)).routeSweptTask r task)
    | _ => none
  | .sweepError e =>
    match s.lane with
    | .callback r =>
      if r.isAsync then none else some { s with deferred := s.deferred ++ [.pollError e] }
    | _ => none
  | .callbackEnds outcome answer =>
    match s.lane with
    | .callback r => ({ s with lane := .idle none }.finishCallback enc r answer outcome).map ret
    | _ => none
  | .drain =>
    match s.lane with
    | .idle _ =>
      match s.retireDeferred enc with
      | (s, .ok ()) => some { s with lane := .draining }
      | (s, .error e) => some { s with lane := .idle (some (.error e)) }
    | _ => none
  | .drainNext answer =>
    match s.lane with
    | .draining =>
      match s.leases with
      | lease :: _ =>
        match s.finishLease lease answer with
        | (s, .ok _) => some s
        | (s, .error e) => some { s with lane := .idle (some (.error e)) }
      | [] =>
        if s.asyncLeases = [] then some { s with lane := .idle none }
        else
          some { s with lane := .idle (some (.error (makeError (text "$.async_leases") true
            (text "outstanding_async_leases")
            (text "asynchronous activity completions remain admitted")))) }
    | _ => none
  | .asyncEnds token =>
    if token ∈ s.asyncLeases then
      some ({ s with asyncLeases := s.asyncLeases.filter (· ≠ token) }.note (.asyncEnded token))
    else none
  | .discard =>
    match s.lane with
    | .idle _ =>
      some ({ s with deferred := [], leases := [], asyncLeases := [] }.note
        (.discarded (startTokens s.deferred ++ s.leases.map Lease.token) s.asyncLeases))
    | _ => none

def empty : Adapter where
  leases := []
  asyncLeases := []
  deferred := []
  lane := .idle none
  trace := []

end Adapter

/-- The activity lane with an arbitrary supervisor and arbitrary callbacks. -/
def adapterSystem (enc : CompletionEncoder) (definitions : List (Bytes × Definition)) :
    Lib.Transitions Adapter AdapterLabel where
  start s := s = .empty
  step l s := s.step enc definitions l

end OcamlTemporal.Activity
