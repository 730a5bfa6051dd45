import Mathlib
import OcamlTemporal.Lib.Transitions

/-!
# OcamlTemporal.Worker.Shutdown

The bounded shutdown of a worker (`lib/runtime/native_worker_shutdown.ml`): the thread that runs
`sequence` and the caller of `run`, which share nothing but `Progress`.

* **`Answers`** is what the operations and the clock answer at the moment of a step: every step
  takes its own, so that they may answer anything, raise anything, and change their mind between two
  calls.
* **`Point`** is where the thread is. A step is one round of a loop, one guarded probe or one access
  to the progress.
* `State.calls` is not in the source: the calls the thread has made, with their answers.
* Times are of any type with a comparison, and no law is asked of it, so that a reading may be a
  NaN.
* The clock and the constructors of errors do not raise; the handler of `job` is never reached then.
-/

namespace OcamlTemporal.Worker.Shutdown

inductive Teardown
  | completed
  | detached
  deriving DecidableEq

structure Report (T : Type) where
  elapsedS : T
  lanesStopped : Bool
  abandonedActivityCallbacks : Nat
  abandonedWorkflowActivations : Nat
  teardown : Teardown
  deriving DecidableEq

inductive Drain (ε : Type)
  | drained
  | busy
  | drainFailed (error : ε) (retryable : Bool)
  deriving DecidableEq

inductive Release (ε : Type)
  | released
  | releasedRetiringLeases (error : ε)
  | releaseFailed (error : ε)
  deriving DecidableEq

inductive Outcome (ε T : Type)
  | shutDown (report : Report T)
  | completionLost (error : ε) (report : Report T)
  | releaseError (error : ε) (report : Report T)
  | releaseUnproven (report : Report T)
  deriving DecidableEq

structure Lanes where
  stopped : Bool
  activityCallbacks : Nat
  workflowActivations : Nat
  deriving DecidableEq

inductive Final (ε : Type)
  | ok
  | completionLost (error : ε)
  | releaseError (error : ε)
  | unproven
  deriving DecidableEq

structure Progress (ε T : Type) where
  lanes : Option Lanes
  drainFailure : Option ε
  releaseStartedAt : Option T
  final : Option (Lanes × Final ε)

/-- The operations and the clock, at one moment. An exception is of type `X`. -/
structure Answers (X ε T : Type) where
  now : T
  stopPolling : Except X Unit
  tryAcquireLanes : Except X Bool
  releaseLanes : Except X Unit
  activityLaneDetached : Except X Bool
  activityCallbackRunning : Except X Bool
  workflowActivationInFlight : Except X Bool
  drainWorkflow : Except X (Drain ε)
  drainActivity : Except X (Drain ε)
  outstandingAsyncLeases : Except X Int
  release : Except X (Release ε)

/-- The two constructors of errors, which do not raise. -/
structure Errors (X ε : Type) where
  asyncLeasesError : Int → ε
  exceptionError : X → ε

inductive Call (X ε T : Type)
  | now (t : T)
  | stopPolling (answer : Except X Unit)
  | tryAcquireLanes (answer : Except X Bool)
  | releaseLanes (answer : Except X Unit)
  | activityLaneDetached (answer : Except X Bool)
  | activityCallbackRunning (answer : Except X Bool)
  | workflowActivationInFlight (answer : Except X Bool)
  | drainWorkflow (answer : Except X (Drain ε))
  | drainActivity (answer : Except X (Drain ε))
  | outstandingAsyncLeases (answer : Except X Int)
  | release (answer : Except X (Release ε))

def probe {X α : Type} (default : α) : Except X α → α
  | .ok value => value
  | .error _ => default

/-- What the thread knows when the drains have ended. `activity` is the result after the wait for
the leases. -/
structure Drains (ε : Type) where
  acquired : Bool
  workflow : Drain ε
  activity : Drain ε
  activityBusy : Bool

inductive Point (ε : Type)
  | stopPolling
  | acquireLanes
  | drainWorkflow (acquired : Bool)
  | drainActivity (acquired : Bool) (workflow : Drain ε)
  | releaseLanes (workflow activity : Drain ε)
  | awaitAsyncLeases (acquired : Bool) (workflow : Drain ε)
  | probeActivity (drains : Drains ε)
  | probeWorkflow (drains : Drains ε) (activityCallbacks : Nat)
  | probeDetached (drains : Drains ε) (activityCallbacks workflowActivations : Nat)
  | publish (lanes : Lanes) (drainFailure : Option ε)
  | release (lanes : Lanes) (drainFailure : Option ε)
  | finish (lanes : Lanes) (final : Final ε)
  | ended

inductive Caller (ε T : Type)
  | starting
  | creating (started hardDeadline : T)
  -- runs `job` itself, since no thread could be created
  | inline (started hardDeadline : T)
  | waiting (started hardDeadline : T)
  -- about to read the clock for the report
  | reporting (started : T) (teardown : Teardown) (lanes : Lanes) (final : Final ε)
  | returned (outcome : Outcome ε T)

structure State (X ε T : Type) where
  -- `none` before `job` starts
  thread : Option (Point ε)
  caller : Caller ε T
  progress : Progress ε T
  calls : List (Call X ε T)

structure Config (X ε T : Type) where
  lanesDeadline : T
  teardownTimeoutS : T
  errors : Errors X ε

inductive Label (X ε T : Type)
  | thread (answers : Answers X ε T)
  | caller (answers : Answers X ε T)
  -- `Thread.create`, which may fail
  | create (threaded : Bool)

section

variable {X ε T : Type}

namespace Drain

def isBusy : Drain ε → Bool
  | busy => true
  | _ => false

def caught (errors : Errors X ε) : Except X (Drain ε) → Drain ε
  | .ok result => result
  | .error x => .drainFailed (errors.exceptionError x) false

def retryable : Drain ε → Bool
  | drainFailed _ retryable => retryable
  | _ => false

end Drain

def firstDrainFailure : Drain ε → Drain ε → Option ε
  | .drainFailed error _, _ => some error
  | _, .drainFailed error _ => some error
  | _, _ => none

/-- How the sequence ends, by what `release ()` does. -/
def finalOf (lanes : Lanes) (drainFailure : Option ε) : Except X (Release ε) → Final ε
  | .error _ => .unproven
  | .ok release =>
    match drainFailure with
    | some error => .completionLost error
    | none =>
      match release with
      | .released => .ok
      | .releasedRetiringLeases error => if !lanes.stopped then .ok else .releaseError error
      | .releaseFailed error => .releaseError error

def lanesOf (drains : Drains ε) (detachedAndRunning : Bool)
    (activityCallbacks workflowActivations : Nat) :
    Lanes where
  stopped :=
    drains.acquired && !detachedAndRunning && !drains.workflow.isBusy && !drains.activityBusy
  activityCallbacks := activityCallbacks
  workflowActivations := workflowActivations

/-- Where the thread goes on when the lane lock is free again or was never held. -/
def afterDrains (acquired : Bool) (workflow activity : Drain ε) : Point ε :=
  if activity.isBusy then .awaitAsyncLeases acquired workflow
  else .probeActivity ⟨acquired, workflow, activity, false⟩

/-- Where the thread goes on after both drains. -/
def afterActivity (acquired : Bool) (workflow activity : Drain ε) : Point ε :=
  if acquired then .releaseLanes workflow activity else afterDrains acquired workflow activity

end

section

variable {X ε T : Type} [Add T] [Sub T] [Max T] [Min T] [OfScientific T] [LT T] [DecidableLT T]
  [LE T] [DecidableLE T]

def lanesSlackS : T := 0.25

def Config.giveUp (config : Config X ε T) : T := config.lanesDeadline + lanesSlackS

variable (config : Config X ε T)

/-- One round of the loop of `drain_until`: the calls and, if the loop ends, the result. -/
def drainUntil (now : T) (call : Except X (Drain ε) → Call X ε T) (answer : Except X (Drain ε)) :
    List (Call X ε T) × Option (Drain ε) :=
  let result := Drain.caught config.errors answer
  if result.retryable then
    ([call answer, .now now], if now < config.giveUp then none else some result)
  else ([call answer], some result)

/-- A step of the thread: the calls that it makes and where it goes on. -/
def Point.next (answers : Answers X ε T) : Point ε → List (Call X ε T) × Point ε
  | .stopPolling => ([.stopPolling answers.stopPolling], .acquireLanes)
  | .acquireLanes =>
    if probe false answers.tryAcquireLanes then
      ([.tryAcquireLanes answers.tryAcquireLanes], .drainWorkflow true)
    else
      ([.tryAcquireLanes answers.tryAcquireLanes, .now answers.now],
        if config.giveUp ≤ answers.now then .drainWorkflow false else .acquireLanes)
  | .drainWorkflow acquired =>
    match drainUntil config answers.now .drainWorkflow answers.drainWorkflow with
    | (calls, none) => (calls, .drainWorkflow acquired)
    | (calls, some workflow) => (calls, .drainActivity acquired workflow)
  | .drainActivity acquired workflow =>
    match drainUntil config answers.now .drainActivity answers.drainActivity with
    | (calls, none) => (calls, .drainActivity acquired workflow)
    | (calls, some activity) => (calls, afterActivity acquired workflow activity)
  | .releaseLanes workflow activity =>
    ([.releaseLanes answers.releaseLanes], afterDrains true workflow activity)
  | .awaitAsyncLeases acquired workflow =>
    let outstanding := probe 0 answers.outstandingAsyncLeases
    if outstanding ≤ 0 then
      ([.outstandingAsyncLeases answers.outstandingAsyncLeases],
        .probeActivity ⟨acquired, workflow, .busy, true⟩)
    else
      ([.outstandingAsyncLeases answers.outstandingAsyncLeases, .now answers.now],
        if config.giveUp ≤ answers.now then
          .probeActivity
            ⟨acquired, workflow, .drainFailed (config.errors.asyncLeasesError outstanding)
              false, true⟩
        else .awaitAsyncLeases acquired workflow)
  | .probeActivity drains =>
    if drains.activityBusy then
      ([.activityCallbackRunning answers.activityCallbackRunning],
        .probeWorkflow drains (if probe false answers.activityCallbackRunning then 1 else 0))
    else ([], .probeWorkflow drains 0)
  | .probeWorkflow drains activityCallbacks =>
    if drains.workflow.isBusy then
      ([.workflowActivationInFlight answers.workflowActivationInFlight],
        .probeDetached drains activityCallbacks
          (if probe false answers.workflowActivationInFlight then 1 else 0))
    else ([], .probeDetached drains activityCallbacks 0)
  | .probeDetached drains activityCallbacks workflowActivations =>
    let failure := firstDrainFailure drains.workflow drains.activity
    if probe false answers.activityLaneDetached then
      ([.activityLaneDetached answers.activityLaneDetached,
        .activityCallbackRunning answers.activityCallbackRunning],
        .publish (lanesOf drains (probe false answers.activityCallbackRunning) activityCallbacks
          workflowActivations) failure)
    else
      ([.activityLaneDetached answers.activityLaneDetached],
        .publish (lanesOf drains false activityCallbacks workflowActivations) failure)
  | .publish lanes failure => ([.now answers.now], .release lanes failure)
  | .release lanes failure =>
    ([.release answers.release], .finish lanes (finalOf lanes failure answers.release))
  | .finish _ _ => ([], .ended)
  | .ended => ([], .ended)

def Progress.written (progress : Progress ε T) (now : T) : Point ε → Progress ε T
  | .publish lanes failure =>
    { progress with lanes := some lanes, drainFailure := failure, releaseStartedAt := some now }
  | .finish lanes final => { progress with final := some (lanes, final) }
  | _ => progress

def outcomeOf (elapsedS : T) (teardown : Teardown) (lanes : Lanes) (final : Final ε) :
    Outcome ε T :=
  let report : Report T :=
    ⟨elapsedS, lanes.stopped, lanes.activityCallbacks, lanes.workflowActivations, teardown⟩
  match final with
  | .ok => .shutDown report
  | .completionLost error => .completionLost error report
  | .releaseError error => .releaseError error report
  | .unproven => .releaseUnproven report

/-- What the caller reports when it gives up on the thread. -/
def detached (answers : Answers X ε T) (progress : Progress ε T) : Lanes × Final ε :=
  let lanes := progress.lanes.getD
    { stopped := false
      activityCallbacks := if probe false answers.activityCallbackRunning then 1 else 0
      workflowActivations := if probe false answers.workflowActivationInFlight then 1 else 0 }
  match progress.drainFailure with
  | some error => (lanes, .completionLost error)
  | none => (lanes, .ok)

/-- A step of the caller, which reads the progress at most once. -/
def Caller.next (answers : Answers X ε T) (thread : Option (Point ε)) (progress : Progress ε T) :
    Caller ε T → Option (Caller ε T)
  | .starting =>
    some (.creating answers.now
      (max answers.now config.lanesDeadline + lanesSlackS + config.teardownTimeoutS))
  | .creating _ _ => none
  | .inline started hardDeadline =>
    match thread with
    | some .ended => some (.waiting started hardDeadline)
    | _ => none
  | .waiting started hardDeadline =>
    match progress.final with
    | some (lanes, final) => some (.reporting started .completed lanes final)
    | none =>
      let deadline := match progress.releaseStartedAt with
        | some at' => min hardDeadline (at' + config.teardownTimeoutS)
        | none => hardDeadline
      if answers.now < deadline then some (.waiting started hardDeadline)
      else
        let (lanes, final) := detached answers progress
        some (.reporting started .detached lanes final)
  | .reporting started teardown lanes final =>
    some (.returned (outcomeOf (max 0.0 (answers.now - started)) teardown lanes final))
  | .returned _ => none

def State.initial : State X ε T where
  thread := none
  caller := .starting
  progress := ⟨none, none, none, none⟩
  calls := []

def State.step (label : Label X ε T) (s : State X ε T) : Option (State X ε T) :=
  match label with
  | .thread answers =>
    match s.thread with
    | none | some .ended => none
    | some point =>
      let (calls, point') := point.next config answers
      some { s with
        thread := some point'
        progress := s.progress.written answers.now point
        calls := s.calls ++ calls }
  | .caller answers =>
    (s.caller.next config answers s.thread s.progress).map fun caller => { s with caller }
  | .create threaded =>
    match s.caller with
    | .creating started hardDeadline =>
      some { s with
        thread := some .stopPolling
        caller := if threaded then .waiting started hardDeadline else .inline started hardDeadline }
    | _ => none

def system : Lib.Transitions (State X ε T) (Label X ε T) where
  start s := s = State.initial
  step := State.step config

end

end OcamlTemporal.Worker.Shutdown
