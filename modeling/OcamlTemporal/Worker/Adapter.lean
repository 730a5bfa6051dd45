import Mathlib
import OcamlTemporal.Activity.Request
import OcamlTemporal.Lib.Transitions
import OcamlTemporal.Protocol.Workflow

/-!
# OcamlTemporal.Worker.Adapter

The workflow lane of the native adapter and its watchdog
(`lib/runtime/native_worker_execution.ml`). The lane polls an activation, publishes
it as a flight, runs workflow code, claims the flight and submits a completion. The
watchdog runs without the adapter's mutex: if workflow code does not return, it
claims the flight instead and submits a failure.

* **`processOne`** is what the lane does with one activation up to the claim: it
  builds one completion, in the order of checks of the source, with a handler around
  it that builds a failure if anything raises.
* **`Adapter`** is the state of lane and watchdogs, **`Adapter.step`** its atomic steps
  and **`workerSystem`** the transition system. `poll`, `drain` and `discard` hold the
  mutex, so there is one lane; watchdog calls interleave with it.
* What the supervisor, the codecs, the observers and workflow code do comes with the
  label. An observer or a teardown that raises after the submission is contained by
  the source and leaves no trace here.
* `Pending.epoch` and `Adapter.trace` are not in the source: they say which activation
  a completion is for and what happened, for the statements about whole runs.
-/

namespace OcamlTemporal.Worker

open OcamlTemporal.Protocol

/-! ## Diagnostics

The errors that the adapter reports, each with a code, the path of what it is about and a message.
Both texts are bounded where the error is made, so that no caller has to. -/

structure ErrorView where
  code : Bytes
  path : Bytes
  message : Bytes
  deriving DecidableEq, Repr

def boundedCode (value : Bytes) : Bytes :=
  if value.length ≤ 128 then value else value.take 125 ++ text "..."

/-- `bounded_message`: keeps at most 1024 bytes and cuts no character apart; the back-off is that of
the activity adapter. -/
def boundedMessage (value : Bytes) : Bytes :=
  Activity.boundedText 1024 (text "invalid workflow diagnostic") value

def makeError (path code message : Bytes) : ErrorView where
  code := boundedCode code
  path := path
  message := boundedMessage message

def exceptionError (path message : Bytes) : ErrorView :=
  makeError path (text "ocaml_exception") message

/-- The failure that Core gets to see for an error of the adapter; Core does not retry it. -/
def failureOfError (e : ErrorView) : Failure where
  message := e.message
  source := text "ocaml-temporal"
  stackTrace := []
  encodedAttributes := none
  cause := none
  info := .application (text "ocaml_temporal_native_worker") true [] .unspecified none

def deadlineExceededError : ErrorView :=
  makeError (text "$.workflow_execution") (text "activation_deadline_exceeded")
    (text ("workflow activation exceeded the worker's activation deadline without yielding; " ++
      "the watchdog released its lease with a failure completion"))

/-! ## Activations

What the adapter reads off an activation before it runs any workflow code: whether it holds only
queries, whether it evicts its run, and what it initializes. -/

def queryId? : ActivationJob → Option Bytes
  | .queryWorkflow queryId _ _ _ => some queryId
  | _ => none

/-- `query_only_ids`: the query ids of an activation that holds nothing but queries. -/
def queryOnlyIds (activation : Activation) : Option (List Bytes) :=
  let queryIds := activation.jobs.filterMap queryId?
  if queryIds ≠ [] ∧ queryIds.length = activation.jobs.length then some queryIds else none

def isRemoval : ActivationJob → Bool
  | .removeFromCache _ _ => true
  | _ => false

def evicts (activation : Activation) : Bool := activation.jobs.any isRemoval

structure Initialization where
  workflowType : Bytes
  arguments : List Protocol.Payload

/-- The loop of `initialization`: `index` counts the jobs, `found` is the initialization met so far
with its place. It has to be the only one and the first job. -/
def collectInitialization (index : Nat) (found : Option (Nat × Initialization)) :
    List ActivationJob → Except ErrorView (Option Initialization)
  | [] =>
    match found with
    | some (0, init) => .ok (some init)
    | some _ =>
      .error (makeError (text "$.jobs") (text "invalid_message")
        (text "Initialize_workflow must be the first activation job"))
    | none => .ok none
  | .initializeWorkflow _ workflowType arguments _ _ _ :: rest =>
    match found with
    | none => collectInitialization (index + 1) (some (index, ⟨workflowType, arguments⟩)) rest
    | some _ =>
      .error (makeError (text ("$.jobs[" ++ toString index ++ "]")) (text "invalid_message")
        (text "activation contains more than one Initialize_workflow job"))
  | _ :: rest => collectInitialization (index + 1) found rest

def initialization (activation : Activation) : Except ErrorView (Option Initialization) :=
  collectInitialization 0 none activation.jobs

/-! ## Completions -/

/-- A completion with the bytes of its single encoder pass. -/
structure EncodedCompletion where
  completion : Completion
  encoded : Bytes

def isTerminal : CompletionCommand → Bool
  | .completeWorkflow _ | .failWorkflow _ | .continueAsNew _ _ | .cancelWorkflowExecution => true
  | _ => false

/-- `failure_completion`: what replaces the completion of a failed activation. -/
def failureCompletion (activation : Activation) (e : ErrorView) : Completion :=
  let failure := failureOfError e
  match queryOnlyIds activation with
  | some queryIds =>
    { runId := activation.runId, versioningBehavior := none, taskFailure := none,
      commands := queryIds.map fun queryId => .queryResult queryId (.failed failure) }
  | none =>
    if evicts activation then
      { runId := activation.runId, commands := [], versioningBehavior := none, taskFailure := none }
    else
      { runId := activation.runId, commands := [], versioningBehavior := none,
        taskFailure := some failure }

/-- What happens once a retained completion is acknowledged: the outcome that the caller of `poll`
gets, and whether the run leaves the run map. -/
inductive PendingResult
  | completed (commandCount : Nat) (terminal evicted : Bool)
  | rejected (error : ErrorView) (removeRun : Bool)

/-- A completion that the supervisor has not acknowledged. `submission` are its bytes, or why it
cannot be encoded; `retryRefusal` is the error of a submission that may not be repeated. -/
structure Pending where
  runId : Bytes
  submission : Except ErrorView Bytes
  result : PendingResult
  retryRefusal : Option ErrorView
  epoch : Nat

inductive Outcome
  | notReady
  | completed (runId : Bytes) (commandCount : Nat) (terminal : Bool)
  | rejected (runId : Bytes) (error : ErrorView)

/-! ## Processing one activation

`processOneUnsafe` goes through the checks of the source in their order and ends in one `Pending`
record: the completion of the activation, the acknowledgement of an eviction, or a failure. It can
raise at every call into foreign code, and what it did to the run map before it raised stays
done. -/

/-- How a call into user code or into a codec ends. -/
inductive Called (α : Type)
  | ok (value : α)
  | error (e : ErrorView)
  | raised (message : Bytes)

/-- What the calls that processing an activation makes come back with. -/
structure Answers where
  -- `translate_activation`
  translated : Called Unit
  -- what `on_activation` raised
  observed : Option Bytes
  -- the input codec on the argument
  decoded : Called Unit
  -- what `Execution.start` raised
  started : Option Bytes
  -- `activate_translated`
  activated : Called EncodedCompletion

/-- The part of the adapter that processing an activation changes; `built` are the
replacement completions. -/
structure Work where
  runs : List Bytes
  built : List Completion

/-- Code of the lane: it can raise, and what it changed before stays changed. -/
abbrev LaneCode := ExceptT Bytes (StateM Work)

def Called.call {α : Type} : Called α → LaneCode (Except ErrorView α)
  | .ok value => pure (.ok value)
  | .error e => pure (.error e)
  | .raised message => throw message

def notifyActivation (observed : Option Bytes) : Except ErrorView Unit :=
  match observed with
  | none => .ok ()
  | some message => .error (exceptionError (text "$.activation.replay_metadata") message)

def findDefinition (definitions : List Bytes) (workflowType : Bytes) : Except ErrorView Unit :=
  if workflowType ∈ definitions then .ok ()
  else
    .error (makeError (text "$.jobs[0].workflow_type") (text "unknown_workflow_type")
      (text "no executable workflow is registered for type " ++ workflowType))

/-- `decode_input`: no argument is the unit payload, more than one is refused. -/
def decodeInput (arguments : List Protocol.Payload) (decoded : Called Unit) : Called Unit :=
  match arguments with
  | [] | [_] => decoded
  | _ =>
    .error (makeError (text "$.jobs[0].arguments") (text "unsupported")
      (text "workflow definitions currently accept exactly one input value"))

section Processing

variable (encode : Completion → Except ErrorView Bytes) (definitions : List Bytes) (epoch : Nat)

def encodeSubmission (completion : Completion) : Except ErrorView Bytes :=
  match encode completion with
  | .ok encoded => .ok encoded
  | .error view =>
    .error (makeError (text "$.completion") (text "completion_failed")
      (text "workflow completion encoding failed: " ++ view.code ++ text " at " ++ view.path ++
        text ": " ++ view.message))

def failurePending (removeRun : Bool) (activation : Activation) (e : ErrorView) : Pending where
  runId := activation.runId
  submission := encodeSubmission encode (failureCompletion activation e)
  result := .rejected e (removeRun || (queryOnlyIds activation).isNone)
  retryRefusal := none
  epoch := epoch

/-- `retire_with_failure`: replaces the completion of the activation by a failure and keeps a record
of the replacement. -/
def retireWithFailure (removeRun : Bool) (activation : Activation) (e : ErrorView) :
    LaneCode Pending := do
  modify fun work => { work with built := work.built ++ [failureCompletion activation e] }
  pure (failurePending encode epoch removeRun activation e)

def completedPending (activation : Activation) (checked : EncodedCompletion) : Pending where
  runId := activation.runId
  submission := .ok checked.encoded
  result := .completed checked.completion.commands.length
    (checked.completion.commands.any isTerminal)
    (checked.completion.taskFailure.isSome || evicts activation)
  retryRefusal := none
  epoch := epoch

/-- The record that `submit_eviction_acknowledgement` submits. -/
def evictionPending (activation : Activation) : Pending where
  runId := activation.runId
  submission := encodeSubmission encode
    { runId := activation.runId, versioningBehavior := none, taskFailure := none, commands := [] }
  result := .completed 0 false true
  retryRefusal := none
  epoch := epoch

/-- The branch of `process_one_unsafe` for an activation that starts a run. -/
def processNew (activation : Activation) (answers : Answers) (init : Initialization) :
    LaneCode Pending := do
  if activation.runId ∈ (← get).runs then
    retireWithFailure encode epoch true activation
      (makeError (text "$.run_id") (text "duplicate_run_id")
        (text "workflow run is already present in the execution registry"))
  else
    match findDefinition definitions init.workflowType with
    | .error e => retireWithFailure encode epoch false activation e
    | .ok () =>
      match ← (decodeInput init.arguments answers.decoded).call with
      | .error e => retireWithFailure encode epoch false activation e
      | .ok () =>
        if let some message := answers.started then throw message
        modify fun work => { work with runs := work.runs ++ [activation.runId] }
        match ← answers.activated.call with
        | .error e => retireWithFailure encode epoch true activation e
        | .ok checked => pure (completedPending epoch activation checked)

/-- The branch of `process_one_unsafe` for an activation of a cached run. -/
def processCached (activation : Activation) (answers : Answers) : LaneCode Pending := do
  if activation.runId ∉ (← get).runs then
    retireWithFailure encode epoch false activation
      (makeError (text "$.run_id") (text "unknown_run_id")
        (text "activation does not identify a registered running workflow"))
  else
    match ← answers.activated.call with
    | .error e => retireWithFailure encode epoch (queryOnlyIds activation).isNone activation e
    | .ok checked => pure (completedPending epoch activation checked)

def processOneUnsafe (activation : Activation) (answers : Answers) : LaneCode Pending := do
  match ← answers.translated.call with
  | .error e => retireWithFailure encode epoch false activation e
  | .ok () =>
    match notifyActivation answers.observed with
    | .error e => retireWithFailure encode epoch false activation e
    | .ok () =>
      if evicts activation = true ∧ activation.runId ∉ (← get).runs then
        -- the run is gone already, and its eviction is still to be acknowledged
        pure (evictionPending encode epoch activation)
      else
        match initialization activation with
        | .error e => retireWithFailure encode epoch false activation e
        | .ok (some init) => processNew encode definitions epoch activation answers init
        | .ok none => processCached encode epoch activation answers

/-- `process_one`: an exception is answered with a failure, which also removes the run if the run
map has it by then. -/
def processOne (activation : Activation) (answers : Answers) : LaneCode Pending :=
  tryCatch (processOneUnsafe encode definitions epoch activation answers) fun message => do
    let runs := (← get).runs
    retireWithFailure encode epoch (decide (activation.runId ∈ runs)) activation
      (exceptionError (text "$.workflow_execution") message)

end Processing

/-! ## The state -/

/-- How the supervisor answers a submission. -/
inductive Answer
  | accepted
  | rejected (code message : Bytes) (retryable : Bool)
  | raised (message : Bytes) (retryable : Bool)
  deriving DecidableEq, Repr

def Answer.isRetryable : Answer → Bool
  | accepted => false
  | rejected _ _ retryable | raised _ retryable => retryable

def Answer.result : Answer → Except ErrorView Unit
  | accepted => .ok ()
  | rejected code message _ =>
    let source := makeError (text "$.completion") code message
    .error (makeError (text "$.completion") (text "completion_failed")
      (text "supervisor rejected completion (" ++ source.code ++ text "): " ++ source.message))
  | raised message _ =>
    .error (makeError (text "$.completion") (text "completion_failed")
      (text "supervisor completion raised: " ++ (exceptionError (text "$") message).message))

inductive Party
  | lane
  | watchdog
  deriving DecidableEq, Repr

/-- The activation that the lane is processing, as the watchdog sees it: the claim is taken once, by
compare-and-set, and the watchdog leaves its outcome for the lane. -/
structure Flight where
  activation : Activation
  claim : Option Party
  watchdogOutcome : Option (Except ErrorView Unit)

/-- Where the lane is. Between two stages another thread can run; `idle` holds what the last call
returned. -/
inductive LaneStage
  | idle (returned : Option (Except ErrorView Outcome))
  -- workflow code runs
  | executing (epoch : Nat)
  | claiming (epoch : Nat) (pending : Pending)
  -- the watchdog has the claim; the lane waits for its outcome
  | waiting (epoch : Nat)
  | submitting (epoch : Nat) (pending : Pending)
  | withdrawing (epoch : Nat) (returned : Except ErrorView Outcome)
  | draining

/-- A call of `abandon_activation`. -/
inductive WatchdogStage
  | idle
  -- it has read the flight
  | holding (epoch : Nat)
  | claimed (epoch : Nat)
  | submitted (epoch : Nat) (outcome : Except ErrorView Unit)

/-- What lane and watchdogs did, by the epoch of the activation: `built` is a replacement
completion, `finished` the return of the lane from the activation, and `discarded` has the epochs of
the completions that were dropped. -/
inductive Event
  | polled (epoch : Nat) (activation : Activation)
  | built (epoch : Nat) (completion : Completion)
  | claimed (epoch : Nat) (party : Party)
  | submitted (epoch : Nat) (party : Party) (encoded : Bytes) (answer : Answer)
  | finished (epoch : Nat)
  | removed (epoch : Nat) (runId : Bytes)
  | discarded (epochs : List Nat)

/-- Lane and watchdogs. `flights` holds all flights, by epoch: a watchdog may still
hold one that was withdrawn. -/
structure Adapter where
  runs : List Bytes
  pending : List Pending
  flights : List Flight
  inFlight : Option Nat
  lane : LaneStage
  watchdogs : Nat → WatchdogStage
  trace : List Event

namespace Adapter

def note (s : Adapter) (e : Event) : Adapter := { s with trace := s.trace ++ [e] }

def setFlight (s : Adapter) (epoch : Nat) (flight : Flight) : Adapter :=
  { s with flights := s.flights.set epoch flight }

def setWatchdog (s : Adapter) (w : Nat) (stage : WatchdogStage) : Adapter :=
  { s with watchdogs := Function.update s.watchdogs w stage }

/-- `Run_map.add`; the map is kept in the order of the run ids. -/
def insertPending (p : Pending) : List Pending → List Pending
  | [] => [p]
  | q :: qs => if p.runId < q.runId then p :: q :: qs else q :: insertPending p qs

def refuse (s : Adapter) (runId : Bytes) (e : ErrorView) : Adapter :=
  { s with
    pending := s.pending.map fun p =>
      if p.runId = runId then { p with retryRefusal := some e } else p }

def dropRun (s : Adapter) (epoch : Nat) (runId : Bytes) : Adapter :=
  if runId ∈ s.runs then
    { s with runs := s.runs.filter (· ≠ runId) }.note (.removed epoch runId)
  else s

/-- `accepted_pending`: the completion is no longer retained, and the run is dropped if its result
says so. -/
def acceptedPending (s : Adapter) (p : Pending) : Adapter × Except ErrorView Outcome :=
  let s := { s with pending := s.pending.filter (·.runId ≠ p.runId) }
  match p.result with
  | .completed commandCount terminal evicted =>
    (if evicted then s.dropRun p.epoch p.runId else s,
      .ok (.completed p.runId commandCount terminal))
  | .rejected e removeRun =>
    (if removeRun then s.dropRun p.epoch p.runId else s, .ok (.rejected p.runId e))

/-- `finish_pending`: submits a retained completion unless its retry was refused. -/
def finishPending (s : Adapter) (p : Pending) (answer : Answer) :
    Adapter × Except ErrorView Outcome :=
  match p.retryRefusal with
  | some e => (s, .error e)
  | none =>
    match p.submission with
    | .error e => (s.refuse p.runId e, .error e)
    | .ok encoded =>
      let s := s.note (.submitted p.epoch .lane encoded answer)
      match answer.result with
      | .ok () => s.acceptedPending p
      | .error e => (if answer.isRetryable then s else s.refuse p.runId e, .error e)

/-- `lane_lost_claim`: claims the flight of the run for the lane; the answer is the
flight if the watchdog has it. -/
def laneLostClaim (s : Adapter) (runId : Bytes) : Adapter × Option Nat :=
  match s.inFlight with
  | none => (s, none)
  | some epoch =>
    match s.flights[epoch]? with
    | none => (s, none)
    | some flight =>
      if flight.activation.runId = runId then
        match flight.claim with
        | none =>
          ((s.setFlight epoch { flight with claim := some .lane }).note
            (.claimed epoch .lane), none)
        | some .lane => (s, none)
        | some .watchdog => (s, some epoch)
      else (s, none)

/-- The lane finds that the watchdog has its activation. It drops the run, unless the activation
holds only queries, and waits for the outcome of the watchdog. -/
def abandonedByWatchdog (s : Adapter) (epoch : Nat) (activation : Activation) : Adapter :=
  let s := if (queryOnlyIds activation).isNone then s.dropRun epoch activation.runId else s
  { s with lane := .waiting epoch }

/-- `enqueue_pending`: the record is retained and submitted if the lane gets the claim and no other
completion of the run is retained. -/
def enqueuePending (s : Adapter) (epoch : Nat) (p : Pending) : Adapter :=
  match s.laneLostClaim p.runId with
  | (s, some lost) =>
    match s.flights[lost]? with
    | some flight => s.abandonedByWatchdog lost flight.activation
    | none => s
  | (s, none) =>
    if p.runId ∈ s.pending.map Pending.runId then
      { s with
        lane := .withdrawing epoch (.error (makeError (text "$.run_id")
          (text "duplicate_pending_completion")
          (text "a workflow run already has an unacknowledged completion"))) }
    else { s with pending := insertPending p s.pending, lane := .submitting epoch p }

end Adapter

/-! ## Steps

A step is what happens between two points at which lane and watchdogs can see each other's writes:
reading the flight, the compare-and-set, a submission, publishing the outcome. -/

/-- What `try_poll_workflow` does. -/
inductive Polled
  | ready (activation : Activation)
  | notReady
  | failed (code message : Bytes)
  | raised (message : Bytes)

inductive Label
  -- the answer is for a retained completion
  | poll (polled : Polled) (answer : Answer)
  | execute (answers : Answers)
  | claim
  | submit (answer : Answer)
  -- the lane sees the outcome of the watchdog
  | resume
  | withdraw
  | drain
  | drainNext (answer : Answer)
  | discard
  -- a watchdog is called for an epoch and reads the flight
  | observe (w epoch : Nat)
  | seize (w : Nat)
  | abandon (w : Nat) (answer : Answer)
  | publish (w : Nat)

namespace Adapter

variable (encode : Completion → Except ErrorView Bytes) (definitions : List Bytes)

/-- `poll` on an idle lane: a retained completion first, then a new activation. -/
def poll (s : Adapter) (polled : Polled) (answer : Answer) : Adapter :=
  match s.pending with
  | p :: _ =>
    let (s, returned) := s.finishPending p answer
    { s with lane := .idle (some returned) }
  | [] =>
    match polled with
    | .ready activation =>
      { s.note (.polled s.flights.length activation) with
        flights := s.flights ++ [⟨activation, none, none⟩]
        inFlight := some s.flights.length
        lane := .executing s.flights.length }
    | .notReady => { s with lane := .idle (some (.ok .notReady)) }
    | .failed code message =>
      { s with lane := .idle (some (.error (makeError (text "$.poll") code message))) }
    | .raised message =>
      { s with lane := .idle (some (.error (exceptionError (text "$.poll") message))) }

/-- Runs `process_one` up to the claim. -/
def execute (s : Adapter) (epoch : Nat) (activation : Activation) (answers : Answers) : Adapter :=
  match (processOne encode definitions epoch activation answers).run ⟨s.runs, []⟩ with
  | (.ok p, work) =>
    { s with
      runs := work.runs
      lane := .claiming epoch p
      trace := s.trace ++ work.built.map (.built epoch) }
  | (.error message, work) =>
    -- the handler of `process_one` does not raise
    { s with
      runs := work.runs
      lane := .withdrawing epoch (.error (exceptionError (text "$") message)) }

/-- One atomic step; `none` if the party is not at the point where it makes this step. -/
def step (s : Adapter) : Label → Option Adapter
  | .poll polled answer =>
    match s.lane with
    | .idle _ => some (s.poll polled answer)
    | _ => none
  | .execute answers =>
    match s.lane with
    | .executing epoch =>
      match s.flights[epoch]? with
      | some flight => some (s.execute encode definitions epoch flight.activation answers)
      | none => none
    | _ => none
  | .claim =>
    match s.lane with
    | .claiming epoch p => some (s.enqueuePending epoch p)
    | _ => none
  | .submit answer =>
    match s.lane with
    | .submitting epoch p =>
      let (s, returned) := s.finishPending p answer
      some { s with lane := .withdrawing epoch returned }
    | _ => none
  | .resume =>
    match s.lane with
    | .waiting epoch =>
      match s.flights[epoch]? with
      | some ⟨activation, _, some (.ok ())⟩ =>
        some { s with
          lane := .withdrawing epoch (.ok (.rejected activation.runId deadlineExceededError)) }
      | some ⟨_, _, some (.error e)⟩ => some { s with lane := .withdrawing epoch (.error e) }
      | _ => none
    | _ => none
  | .withdraw =>
    match s.lane with
    | .withdrawing epoch returned =>
      some ({ s with inFlight := none, lane := .idle (some returned) }.note (.finished epoch))
    | _ => none
  | .drain =>
    match s.lane with
    | .idle _ => some { s with lane := .draining }
    | _ => none
  | .drainNext answer =>
    match s.lane with
    | .draining =>
      match s.pending with
      | p :: _ =>
        match s.finishPending p answer with
        | (s, .ok _) => some s
        | (s, .error e) => some { s with lane := .idle (some (.error e)) }
      | [] => some { s with lane := .idle none }
    | _ => none
  | .discard =>
    match s.lane with
    | .idle _ =>
      some ({ s with runs := [], pending := [] }.note (.discarded (s.pending.map Pending.epoch)))
    | _ => none
  | .observe w epoch =>
    match s.watchdogs w with
    | .idle => if s.inFlight = some epoch then some (s.setWatchdog w (.holding epoch)) else none
    | _ => none
  | .seize w =>
    match s.watchdogs w with
    | .holding epoch =>
      match s.flights[epoch]? with
      | some flight =>
        -- the compare-and-set
        if flight.claim = none then
          some (((s.setFlight epoch { flight with claim := some .watchdog }).setWatchdog w
            (.claimed epoch)).note (.claimed epoch .watchdog))
        else some (s.setWatchdog w .idle)
      | none => none
    | _ => none
  | .abandon w answer =>
    match s.watchdogs w with
    | .claimed epoch =>
      match s.flights[epoch]? with
      | some flight =>
        match encodeSubmission encode
          (failureCompletion flight.activation deadlineExceededError) with
        | .error e => some (s.setWatchdog w (.submitted epoch (.error e)))
        | .ok encoded =>
          some ((s.setWatchdog w (.submitted epoch answer.result)).note
            (.submitted epoch .watchdog encoded answer))
      | none => none
    | _ => none
  | .publish w =>
    match s.watchdogs w with
    | .submitted epoch outcome =>
      match s.flights[epoch]? with
      | some flight =>
        some ((s.setFlight epoch { flight with watchdogOutcome := some outcome }).setWatchdog w
          .idle)
      | none => none
    | _ => none

def empty : Adapter where
  runs := []
  pending := []
  flights := []
  inFlight := none
  lane := .idle none
  watchdogs _ := .idle
  trace := []

end Adapter

/-- Lane and watchdogs with an arbitrary supervisor and arbitrary workflow code. -/
def workerSystem (encode : Completion → Except ErrorView Bytes) (definitions : List Bytes) :
    Lib.Transitions Adapter Label where
  start s := s = .empty
  step l s := s.step encode definitions l

end OcamlTemporal.Worker
