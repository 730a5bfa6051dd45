import Mathlib.Logic.Function.Basic
import OcamlTemporal.Base.Error
import OcamlTemporal.Lib.Transitions

/-!
# OcamlTemporal.Runtime.Conditions

Condition waits (`lib/public/condition.ml`) over the store of their waiters
(`lib/runtime/condition_store.ml`), the drain of the scheduler with its idle check
(`Scheduler.run`, `run_scheduler`), and the scoped timer that bounds a wait (`Scope.cancel`,
`Scope.on_cancel`, `start_sleep`, `start_timer` and `fire_timer`).

* `State.mem` is what predicates read and code changes; its type is arbitrary. A predicate is a
  function of it that may change it too, and do what code does without suspending: queue work,
  start and cancel timers, continue as new and swallow the abort.
* The code of fibers and callbacks is arbitrary: the labels say what it does next. A callback runs
  without the fiber's effect handler, so that a wait in it raises where a fiber is suspended.
* A step is what runs without any other code in between: one thunk of the queue up to the code that
  it continues, the evaluation of one predicate with what the wait does about it, or one action of
  running code.
* The scope of a bounded wait is its own: one hook, that cancels the timer, until the timer settles.

`State.returns`, `checked` and the states of settled timers are not in the source. A bound that
elapsed is a case of its own in `Outcome`, apart from an error of the predicate.
-/

namespace OcamlTemporal.Conditions

/-! ## Predicates and waits -/

/-- How the evaluation of a predicate ends. -/
inductive Verdict
  | holds (value : Bool)
  | failed (error : Error)
  | raised (exn : String)
  deriving DecidableEq

def protectPredicate : Verdict → Except Error Bool
  | .holds value => .ok value
  | .failed error => .error error
  | .raised exn => .error (.defect ("Temporal.Condition predicate raised: " ++ exn))

/-- What code does without suspending. -/
inductive Action
  | enqueue (callers : List (Option Nat))
  | startTimer (milliseconds : Nat)
  | cancelTimer (seq : Nat)
  | continueAsNew

/-- What one evaluation of a predicate does and how it ends. -/
structure Evaluation (M : Type) where
  mem : M
  actions : List Action
  verdict : Verdict

/-- What bounds a wait: nothing, or the future of the sleep that `wait` started for it. -/
inductive Bound
  | unbounded
  -- `start_sleep` gave a failed future
  | unstarted
  -- a zero bound: a ready future and no timer
  | elapsed
  | timer (seq : Nat)
  deriving DecidableEq

/-- A call of `wait_until_result`, by a fiber or by a callback. -/
structure Wait (M : Type) where
  caller : Option Nat
  predicate : M → Evaluation M
  bound : Bound

inductive Outcome
  | ok
  | timedOut
  | error (error : Error)
  deriving DecidableEq

/-- A wait that returned, with the memory that its predicate was last evaluated in and whether a
terminal command had sealed the context. -/
structure Return (M : Type) where
  wait : Nat
  outcome : Outcome
  seen : M
  isSealed : Bool

/-! ## State -/

inductive TimerState
  | pending
  | fired
  | cancelled
  deriving DecidableEq

/-- The scope of a wait: `hook` says that the token of its hook is there. -/
structure Scope where
  cancelled : Bool
  hook : Bool
  deriving DecidableEq

inductive Thunk
  -- the fiber that is suspended in a wait
  | resume (wait : Nat) (result : Except Error Unit)
  -- the observer of a wait's timer
  | detach (wait : Nat)
  -- other work: a fiber or a callback
  | code (caller : Option Nat)

inductive Turn
  | loop
  | code (caller : Option Nat)
  -- `Condition_store.wait_until` of a wait
  | evaluating (wait : Nat)
  -- `Condition_store.notify` over the rest of its snapshot
  | pass (rest : List Nat)
  deriving DecidableEq

inductive Command
  | startTimer (seq milliseconds : Nat)
  | cancelTimer (seq : Nat)
  | terminal
  deriving DecidableEq

structure State (M : Type) where
  mem : M
  -- the scheduler
  queue : List Thunk
  running : Bool
  active : Bool
  abortRequested : Bool
  failed : Bool
  turn : Turn
  -- the store
  waiters : List Nat
  closed : Bool
  -- the context. `terminal`: a terminal command is buffered or was emitted.
  isSealed : Bool
  terminal : Bool
  nextSequence : Nat
  timers : List Nat
  timerState : Nat → Option TimerState
  timerWait : Nat → Option Nat
  commands : List Command
  -- the waits, numbered in the order of the calls, with their scopes
  count : Nat
  waits : Nat → Option (Wait M)
  scope : Nat → Scope
  returns : List (Return M)
  -- the waiters whose predicate was false when the idle check evaluated it, since the last thunk
  checked : List Nat

namespace State

variable {M : Type}

def init (mem : M) : State M where
  mem
  queue := []
  running := false
  active := true
  abortRequested := false
  failed := false
  turn := .loop
  waiters := []
  closed := false
  isSealed := false
  terminal := false
  nextSequence := 0
  timers := []
  timerState _ := none
  timerWait _ := none
  commands := []
  count := 0
  waits _ := none
  scope _ := ⟨false, false⟩
  returns := []
  checked := []

def live (s : State M) : Bool := s.running && s.active

def enqueue (s : State M) (thunk : Thunk) : State M :=
  if s.active then { s with queue := s.queue ++ [thunk] } else s

def emit (s : State M) (command : Command) : State M :=
  if s.isSealed then s else { s with commands := s.commands ++ [command] }

def setScope (s : State M) (w : Nat) (scope : Scope) : State M :=
  { s with scope := Function.update s.scope w scope }

/-! ## Timers -/

/-- `start_timer`, for the wait that owns the timer if any. -/
def startTimer (s : State M) (milliseconds : Nat) (owner : Option Nat) : State M :=
  let seq := s.nextSequence + 1
  { s with
    nextSequence := seq
    timers := s.timers ++ [seq]
    timerState := Function.update s.timerState seq (some .pending)
    timerWait := Function.update s.timerWait seq owner }.emit (.startTimer seq milliseconds)

/-- The `cancel` closure of a timer. Nothing happens once the context is sealed. -/
def cancelTimer (s : State M) (seq : Nat) : State M :=
  if s.isSealed then s
  else if seq ∈ s.timers then
    { s with
      timers := s.timers.filter (· ≠ seq)
      timerState := Function.update s.timerState seq (some .cancelled) }.emit (.cancelTimer seq)
  else s

/-- `fire_timer`. The observer of a wait's timer is there as long as the hook is. -/
def fireTimer (s : State M) (seq : Nat) : State M :=
  let s := { s with
    timers := s.timers.filter (· ≠ seq)
    timerState := Function.update s.timerState seq (some .fired) }
  match s.timerWait seq with
  | some w => if (s.scope w).hook then s.enqueue (.detach w) else s
  | none => s

/-! ## Code -/

/-- `continue_as_new`: only a fiber's effect is handled. -/
def continueAsNew (s : State M) (caller : Option Nat) : State M :=
  let s := { s.emit .terminal with isSealed := true, terminal := s.terminal || !s.isSealed }
  match caller with
  | some _ => { s with abortRequested := true }
  | none => s

/-- One action of the code of a fiber, or of a callback. The timers of waits are their own. -/
def act (s : State M) (caller : Option Nat) : Action → State M
  | .enqueue callers => callers.foldl (fun s caller => s.enqueue (.code caller)) s
  | .startTimer milliseconds =>
    -- a promise of a scheduler that is shut down raises
    if s.active then s.startTimer milliseconds none else s
  | .cancelTimer seq => if (s.timerWait seq).isNone then s.cancelTimer seq else s
  | .continueAsNew => s.continueAsNew caller

def actAll (s : State M) (caller : Option Nat) (actions : List Action) : State M :=
  actions.foldl (fun s action => s.act caller action) s

/-! ## The end of a wait -/

def ownershipError : Error :=
  .defect "Temporal.Scope.cancel used outside its owning workflow scheduler"

def fired (s : State M) : Bound → Bool
  | .unbounded | .unstarted => false
  | .elapsed => true
  | .timer seq => s.timerState seq = some .fired

def timerReady (s : State M) (seq : Nat) : Bool := s.timerState seq ≠ some .pending

/-- `Scope.cancel` of the scope of a wait: its only hook cancels the timer, unless that has
settled. -/
def cancelScope (s : State M) (w : Nat) (bound : Bound) : Except Error Unit × State M :=
  if s.live then
    let scope := s.scope w
    if scope.cancelled then (.ok (), s)
    else
      let s := s.setScope w ⟨true, false⟩
      match bound with
      | .timer seq =>
        if scope.hook && !s.timerReady seq then (.ok (), s.cancelTimer seq) else (.ok (), s)
      | _ => (.ok (), s)
  else (.error ownershipError, s)

def returned (s : State M) (w : Nat) (wait : Wait M) (outcome : Outcome) (seen : M) : State M :=
  { s with
    turn := .code wait.caller
    returns := ⟨w, outcome, seen, s.isSealed⟩ :: s.returns }

def finish (s : State M) (w : Nat) (wait : Wait M) (outcome : Outcome) (seen : M) : State M :=
  match outcome, s.cancelScope w wait.bound with
  | .ok, (.error e, s) => s.returned w wait (.error e) seen
  | outcome, (_, s) => s.returned w wait outcome seen

/-! ## A wait -/

/-- The predicate is evaluated, by the fiber that waits or outside of any fiber. -/
def applyPredicate (s : State M) (caller : Option Nat) (wait : Wait M) :
    Except Error Bool × State M :=
  let e := wait.predicate s.mem
  (protectPredicate e.verdict, { s with mem := e.mem }.actAll caller e.actions)

/-- The predicate that the store is given: a bounded wait also wakes when its timer fired. -/
def storePredicate (s : State M) (caller : Option Nat) (wait : Wait M) :
    Except Error Bool × State M :=
  match s.applyPredicate caller wait with
  | (.ok false, s) => (.ok (s.fired wait.bound), s)
  | r => r

/-- The predicate is read again as the fiber goes on. -/
def recheck (s : State M) (w : Nat) (wait : Wait M) : State M :=
  match s.applyPredicate wait.caller wait with
  | (.ok true, t) => t.finish w wait .ok s.mem
  | (.ok false, t) =>
    if t.fired wait.bound then t.finish w wait .timedOut s.mem
    else { t with turn := .evaluating w }
  | (.error e, t) => t.finish w wait (.error e) s.mem

def answered (s : State M) (w : Nat) (wait : Wait M) (result : Except Error Unit) (seen : M) :
    State M :=
  match wait.bound, result with
  | .unbounded, .ok () => s.returned w wait .ok seen
  | .unbounded, .error e => s.returned w wait (.error e) seen
  | _, .ok () => s.recheck w wait
  | _, .error e => s.finish w wait (.error e) seen

def closedError : Error := .defect "Temporal condition wait used after workflow execution ended"

def conditionOwnership : Error :=
  .defect "Temporal condition wait used outside its workflow scheduler"

/-- `register` and the await: a fiber is suspended, in a callback the effect is an exception. -/
def register (s : State M) (w : Nat) (wait : Wait M) : State M :=
  { s with
    waiters := s.waiters ++ [w]
    turn :=
      match wait.caller with
      | some _ => .loop
      | none => .code none }

def evaluate (s : State M) (w : Nat) (wait : Wait M) : State M :=
  if s.closed then s.answered w wait (.error closedError) s.mem
  else if !s.live then s.answered w wait (.error conditionOwnership) s.mem
  else
    match s.storePredicate wait.caller wait with
    | (.error e, t) => t.answered w wait (.error e) s.mem
    | (.ok true, t) => t.answered w wait (.ok ()) s.mem
    | (.ok false, t) => t.register w wait

def addWait (s : State M) (wait : Wait M) : State M :=
  { s with
    count := s.count + 1
    waits := Function.update s.waits s.count (some wait)
    scope := Function.update s.scope s.count ⟨false, false⟩ }

def sleepOutside : Error := .defect "scoped workflow sleep used outside a workflow scheduler turn"

/-- `wait_until_result`, up to the store. Without an active scheduler `Scope.create` raises. -/
def wait (s : State M) (caller : Option Nat) (timeout : Option Nat)
    (predicate : M → Evaluation M) : State M :=
  let w := s.count
  match timeout with
  | none => { s.addWait ⟨caller, predicate, .unbounded⟩ with turn := .evaluating w }
  | some milliseconds =>
    if !s.active then s
    else if s.isSealed || !s.running then
      let wait : Wait M := ⟨caller, predicate, .unstarted⟩
      (s.addWait wait).finish w wait (.error sleepOutside) s.mem
    else if milliseconds = 0 then
      { s.addWait ⟨caller, predicate, .elapsed⟩ with turn := .evaluating w }
    else
      let s := (s.addWait ⟨caller, predicate, .timer (s.nextSequence + 1)⟩).startTimer milliseconds
        (some w)
      -- `on_cancel ~until`: the timer is pending
      { s.setScope w ⟨false, true⟩ with turn := .evaluating w }

/-! ## The scheduler -/

/-- `settle`: the waiter leaves the store, and the fiber that waits is queued. -/
def settle (s : State M) (w : Nat) (wait : Wait M) (result : Except Error Unit) : State M :=
  let s := { s with waiters := s.waiters.filter (· ≠ w) }
  match wait.caller with
  | some _ => s.enqueue (.resume w result)
  | none => s

/-- `notify` at one waiter of its snapshot, without the effect handler of a fiber. -/
def visit (s : State M) (w : Nat) (wait : Wait M) : State M :=
  if w ∈ s.waiters then
    match s.storePredicate none wait with
    | (.ok false, t) => { t with checked := w :: t.checked }
    | (.ok true, t) => t.settle w wait (.ok ())
    | (.error e, t) => t.settle w wait (.error e)
  else s

def endRun (s : State M) : State M := { s with running := false, turn := .loop }

def invoke (s : State M) : Thunk → Option (State M)
  | .code caller => some { s with turn := .code caller }
  | .detach w =>
    if s.live then some (s.setScope w { s.scope w with hook := false }) else some s
  | .resume w result =>
    (s.waits w).map fun wait =>
      if s.live then s.answered w wait result s.mem
      -- discontinued: its cleanup code runs
      else { s with turn := .code wait.caller }

/-- The loop of `Scheduler.run`: the next thunk, the idle check or the end. -/
def next (s : State M) : Option (State M) :=
  match s.queue, s.abortRequested with
  | thunk :: queue, false => { s with queue, checked := [] }.invoke thunk
  | _, _ =>
    if s.active && !s.abortRequested && !s.failed then
      -- a terminal command suppresses the recheck
      if s.terminal then some s.endRun else some { s with turn := .pass s.waiters }
    else some s.endRun

def shutdown (s : State M) : State M :=
  { s with isSealed := true, closed := true, waiters := [], active := false, timers := [] }

def recordFailure (s : State M) : State M :=
  if s.active && !s.abortRequested then { s with failed := true } else s

end State

/-! ## Steps -/

inductive Label (M : Type)
  -- between runs: jobs change what predicates read and queue work
  | job (mem : M) (callers : List (Option Nat))
  | fire (seq : Nat)
  | beginRun
  -- the cache entry is removed between runs
  | shutdown
  -- the scheduler, the store or the wait goes on
  | next
  -- cleanup code of a fiber that the shutdown discontinued
  | discontinue (fiber : Nat)
  -- what running code does
  | mutate (mem : M)
  | act (action : Action)
  | wait (timeout : Option Nat) (predicate : M → Evaluation M)
  | leave
  | raise
  -- the fiber ends with a terminal command
  | terminate

namespace State

variable {M : Type}

def codeStep (s : State M) (caller : Option Nat) : Label M → Option (State M)
  | .mutate mem => some { s with mem }
  | .act action => some (s.act caller action)
  | .wait timeout predicate => some (s.wait caller timeout predicate)
  | .leave => some { s with turn := .loop }
  | .raise => some { s.recordFailure with turn := .loop }
  | .terminate =>
    match caller with
    | some _ =>
      if s.terminal then some { s with turn := .loop }
      else some { (s.emit .terminal).shutdown with terminal := true, turn := .loop }
    | none => none
  | _ => none

def machineStep (s : State M) : Option (State M) :=
  match s.turn with
  | .loop => if s.running then s.next else none
  | .evaluating w => (s.waits w).map fun wait => s.evaluate w wait
  | .pass [] => some (if s.queue.isEmpty then s.endRun else { s with turn := .loop })
  | .pass (w :: rest) => (s.waits w).map fun wait => { s.visit w wait with turn := .pass rest }
  | .code _ => none

def outerStep (s : State M) : Label M → Option (State M)
  | .job mem callers => some ({ s with mem }.act none (.enqueue callers))
  | .fire seq => if seq ∈ s.timers then some (s.fireTimer seq) else none
  | .beginRun =>
    if s.active && !s.terminal then
      some { s with running := true, abortRequested := false, checked := [] }
    else none
  | .shutdown => some s.shutdown
  | _ => none

def step (label : Label M) (s : State M) : Option (State M) :=
  match label, s.turn with
  | .next, _ => s.machineStep
  | .discontinue fiber, .loop =>
    if s.active then none else some { s with turn := .code (some fiber) }
  | label, .code caller => s.codeStep caller label
  | label, .loop => if s.running then none else s.outerStep label
  | _, _ => none

end State

/-- The condition waits of one workflow execution, under every program. -/
def system {M : Type} (mem : M) : Lib.Transitions (State M) (Label M) where
  start s := s = State.init mem
  step := State.step

end OcamlTemporal.Conditions
