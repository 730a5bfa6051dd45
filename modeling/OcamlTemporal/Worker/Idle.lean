import Mathlib
import OcamlTemporal.Lib.Transitions

/-!
# OcamlTemporal.Worker.Idle

The pacing of idle lanes (`lib/runtime/native_worker_idle.ml`). Every lane is a thread of its own,
and every access to one of the three shared atomics is a step: the reads of `next_delay` are apart,
so that other lanes and notifications come between them.

* **`Lane`** is the backoff of a lane with its position in `next_delay` or `native_wait`.
* `Lane.given`, `Lane.works` and `Lane.waits` are not in the source: what the lane was given so far,
  and how often the work epoch and the wait generation advanced since the lane was created.
* Delays are rational seconds.
-/

namespace OcamlTemporal.Worker.Idle

/-- The two delays of `create`, as it checks them. -/
structure Pacing where
  firstDelay : ℚ
  maxDelay : ℚ
  positive : 0 < firstDelay
  ordered : firstDelay ≤ maxDelay

/-- What `next_delay` returns, by the branch that returns it. -/
inductive Given
  -- joins a native wait
  | join (generation : Nat)
  -- restarts the backoff because the joining poll returned early
  | early (generation : Nat) (delay : ℚ)
  -- restarts the backoff after new work
  | work (epoch : Nat)
  | backoff (delay : ℚ)
  deriving DecidableEq

def Given.delay : Given → ℚ
  | join _ | work _ => 0
  | early _ delay | backoff delay => delay

inductive Stage
  | running
  -- in `next_delay`, with the generation read
  | asked (generation : Nat)
  -- in `next_delay`, about to read the work epoch
  | pacing
  -- in `native_wait`, before the flag is set
  | starting
  | waiting
  deriving DecidableEq

structure Lane where
  seenEpoch : Nat
  joinedGeneration : Nat
  earlyGeneration : Nat
  delay : ℚ
  stage : Stage
  given : List Given
  works : Nat
  waits : Nat

structure State where
  workEpoch : Nat
  waitGeneration : Nat
  waiting : Bool
  lanes : Nat → Option Lane

inductive Label
  | lane (i : Nat)
  | noteWork
  | noteReady (i : Nat)
  | ask (i : Nat)
  | look (i : Nat)
  | pace (i : Nat)
  | startWait (i : Nat)
  | raiseFlag (i : Nat)
  | endWait (i : Nat)

namespace Lane

def create (epoch generation : Nat) : Lane where
  seenEpoch := epoch
  joinedGeneration := generation
  earlyGeneration := generation
  delay := 0
  stage := .running
  given := []
  works := 0
  waits := 0

def give (lane : Lane) (given : Given) : Lane :=
  { lane with stage := .running, given := lane.given ++ [given] }

/-- `next_delay` after its reads of the generation and of the flag. -/
def look (pacing : Pacing) (lane : Lane) (generation : Nat) (inFlight : Bool) : Lane :=
  if inFlight ∧ generation ≠ lane.joinedGeneration then
    { lane with joinedGeneration := generation }.give (.join generation)
  else if inFlight ∧ generation ≠ lane.earlyGeneration then
    { lane with earlyGeneration := generation, delay := pacing.firstDelay }.give
      (.early generation pacing.firstDelay)
  else { lane with stage := .pacing }

/-- The end of `next_delay`, with the work epoch read. -/
def pace (pacing : Pacing) (lane : Lane) (epoch : Nat) : Lane :=
  if epoch ≠ lane.seenEpoch then
    { lane with seenEpoch := epoch, delay := 0 }.give (.work epoch)
  else
    let next := if lane.delay ≤ 0 then pacing.firstDelay else min pacing.maxDelay (lane.delay * 2)
    { lane with delay := next }.give (.backoff next)

def ready (lane : Lane) (previous : Nat) : Lane :=
  if lane.seenEpoch = previous then { lane with seenEpoch := previous + 1 } else lane

end Lane

namespace State

def setLane (s : State) (i : Nat) (lane : Lane) : State :=
  { s with lanes := Function.update s.lanes i (some lane) }

def work (s : State) : State :=
  { s with
    workEpoch := s.workEpoch + 1
    lanes := fun i => (s.lanes i).map fun lane => { lane with works := lane.works + 1 } }

def wait (s : State) : State :=
  { s with
    waitGeneration := s.waitGeneration + 1
    lanes := fun i => (s.lanes i).map fun lane => { lane with waits := lane.waits + 1 } }

end State

def State.withLane (s : State) (i : Nat) (next : Lane → Option State) : Option State :=
  (s.lanes i).bind next

variable (pacing : Pacing)

def State.step (s : State) : Label → Option State
  | .lane i =>
    if s.lanes i = none then some (s.setLane i (.create s.workEpoch s.waitGeneration)) else none
  | .noteWork => some s.work
  | .noteReady i => s.withLane i fun lane =>
    if lane.stage = .running then
      some (s.work.setLane i ({ lane with works := lane.works + 1 }.ready s.workEpoch))
    else none
  | .ask i => s.withLane i fun lane =>
    if lane.stage = .running then some (s.setLane i { lane with stage := .asked s.waitGeneration })
    else none
  | .look i => s.withLane i fun lane =>
    match lane.stage with
    | .asked generation => some (s.setLane i (lane.look pacing generation s.waiting))
    | _ => none
  | .pace i => s.withLane i fun lane =>
    if lane.stage = .pacing then some (s.setLane i (lane.pace pacing s.workEpoch)) else none
  | .startWait i => s.withLane i fun lane =>
    if lane.stage = .running then
      some (s.wait.setLane i { lane with waits := lane.waits + 1, stage := .starting })
    else none
  | .raiseFlag i => s.withLane i fun lane =>
    if lane.stage = .starting then
      some ({ s with waiting := true }.setLane i { lane with stage := .waiting })
    else none
  | .endWait i => s.withLane i fun lane =>
    if lane.stage = .waiting then
      some ({ s with waiting := false }.setLane i { lane with stage := .running })
    else none

def State.initial : State := ⟨0, 0, false, fun _ => none⟩

/-- Any number of lanes with any notifications. Nothing keeps two native waits apart, which the wait
token of the run loop does. -/
def idleSystem : Lib.Transitions State Label where
  start s := s = .initial
  step l s := s.step pacing l

end OcamlTemporal.Worker.Idle
