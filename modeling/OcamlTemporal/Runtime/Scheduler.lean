import Mathlib.Data.List.Basic
import Mathlib.Logic.Function.Basic
import OcamlTemporal.Runtime.Program

/-!
# OcamlTemporal.Runtime.Scheduler

The FIFO scheduler of one workflow execution and the futures it owns
(`lib/runtime/scheduler.ml`, `lib/runtime/future_store.ml`).

A future is its index in `cells`. The source keeps a mutable cell per future
behind closures; here the scheduler record holds all of them, with the teardown
registry as the list of linked futures and every subscription's token in
`tokens`. A token is the reference cell that `unsubscribe` and delivery clear.
-/

namespace OcamlTemporal

/-- Work in the run queue. `root`, `signal`, `update` and the two backoff thunks
are spawned and run under the effect handler. -/
inductive Thunk (P : Program)
  | root
  | signal (code : P.Code)
  | update (update : Update)
  -- starts the retry timer of a local activity
  | backoffTimer (seq : Nat) (attempt : Int) (backoffMilliseconds : Int)
      (originalScheduleTime : Option Timestamp)
  -- schedules the next attempt of a local activity
  | backoffRetry (seq : Nat) (attempt : Int) (originalScheduleTime : Option Timestamp)
  | resume (k : Cont P) (result : Result P.Val)
  | deliver (subscription : Nat) (result : Result P.Val)
  | callback (code : P.Code)

/-- The continuation a queued resumption holds. -/
def Thunk.cont? {P : Program} : Thunk P → Option (Cont P)
  | resume k _ => some k
  | _ => none

/-- The life of a future. Waiters are stored newest first, as the source does;
observers in registration order. -/
inductive CellState (P : Program)
  | pending (waiters : List (Cont P)) (observers : List Nat)
  | ready (result : Result P.Val)
  | closed

/-- A scheduler-owned future. `isSignal` marks the futures whose resolver is
handed to public code. -/
structure Cell (P : Program) where
  state : CellState P
  outsideError : Error
  isSignal : Bool

def Cell.isPending {P : Program} (c : Cell P) : Bool :=
  match c.state with
  | .pending _ _ => true
  | _ => false

/-- State of one workflow scheduler. -/
structure Scheduler (P : Program) where
  queue : List (Nat × Thunk P)
  nextSequence : Nat
  running : Bool
  active : Bool
  pending : Int
  failures : List Exn
  teardowns : List Nat
  abortRequested : Bool
  cells : List (Cell P)
  -- the future of each subscription
  subscriptions : List Nat
  tokens : Nat → Option (Result P.Val → P.Code)

namespace Scheduler

variable {P : Program}

def create : Scheduler P where
  queue := []
  nextSequence := 0
  running := false
  active := true
  pending := 0
  failures := []
  teardowns := []
  abortRequested := false
  cells := []
  subscriptions := []
  tokens := fun _ => none

def live (s : Scheduler P) : Bool := s.running && s.active

/-- The message of every use after shutdown. -/
def shutDown : Exn := .invalidArgument "Temporal scheduler is shut down"

/-- Queues a thunk under the next sequence number. An inactive scheduler
discards it, together with the continuation it may hold. -/
def enqueue (s : Scheduler P) (th : Thunk P) : Scheduler P :=
  if s.active then
    { s with
      queue := s.queue ++ [(s.nextSequence, th)]
      nextSequence := s.nextSequence + 1 }
  else s

@[simp] theorem enqueue_active (s : Scheduler P) (th : Thunk P) :
    (s.enqueue th).active = s.active := by
  unfold enqueue
  split <;> rfl

def enqueueAll (s : Scheduler P) (ths : List (Thunk P)) : Scheduler P := ths.foldl enqueue s

@[simp] theorem enqueueAll_active (s : Scheduler P) (ths : List (Thunk P)) :
    (s.enqueueAll ths).active = s.active := by
  induction ths generalizing s with
  | nil => rfl
  | cons th ths ih => exact (ih (s.enqueue th)).trans (s.enqueue_active th)

def numbered (n : Nat) : List (Thunk P) → List (Nat × Thunk P)
  | [] => []
  | th :: ths => (n, th) :: numbered (n + 1) ths

variable {s s' : Scheduler P} {f : Nat}

theorem enqueueAll_of_active (h : s.active = true) (ths : List (Thunk P)) :
    s.enqueueAll ths =
      { s with
        queue := s.queue ++ numbered s.nextSequence ths
        nextSequence := s.nextSequence + ths.length } := by
  induction ths generalizing s with
  | nil => simp [enqueueAll, numbered]
  | cons th ths ih =>
    have hact : (s.enqueue th).active = true := (s.enqueue_active th).trans h
    refine (ih hact).trans ?_
    simp [enqueue, h, numbered, Nat.add_assoc, Nat.add_comm 1]

theorem enqueueAll_of_inactive (h : s.active = false) (ths : List (Thunk P)) :
    s.enqueueAll ths = s := by
  induction ths with
  | nil => rfl
  | cons th ths ih =>
    have hth : s.enqueue th = s := by simp [enqueue, h]
    exact (congrArg (enqueueAll · ths) hth).trans ih

theorem enqueue_eq_enqueueAll (s : Scheduler P) (th : Thunk P) :
    s.enqueue th = s.enqueueAll [th] :=
  rfl

theorem enqueueAll_frame (s : Scheduler P) (ths : List (Thunk P)) :
    s.enqueueAll ths =
      { s with
        queue := (s.enqueueAll ths).queue
        nextSequence := (s.enqueueAll ths).nextSequence } := by
  rcases Bool.eq_false_or_eq_true s.active with h | h
  · rw [enqueueAll_of_active h]
  · rw [enqueueAll_of_inactive h]

/-- Queues root user code; `none` is `invalid_arg`. -/
def spawn (s : Scheduler P) (th : Thunk P) : Option (Scheduler P) :=
  if s.active then some (s.enqueue th) else none

/-- An exception that escaped a fiber. After shutdown or an abort it is only a
diagnostic. -/
def recordFailure (s : Scheduler P) (exn : Exn) : Scheduler P :=
  if s.active && !s.abortRequested then { s with failures := exn :: s.failures } else s

theorem recordFailure_frame (s : Scheduler P) (exn : Exn) :
    s.recordFailure exn = { s with failures := (s.recordFailure exn).failures } := by
  unfold recordFailure
  split <;> rfl

/-- Allocates a pending future and links its teardown; `none` is `invalid_arg`. -/
def promise (s : Scheduler P) (outsideError : Error) (isSignal : Bool) :
    Option (Scheduler P × Nat) :=
  if s.active then
    some ({ s with
      cells := s.cells ++ [{ state := .pending [] [], outsideError, isSignal }]
      pending := s.pending + 1
      teardowns := s.teardowns ++ [s.cells.length] }, s.cells.length)
  else none

theorem promise_eq_some {outsideError : Error} {isSignal : Bool}
    (h : s.promise outsideError isSignal = some (s', f)) :
    s.active = true ∧ f = s.cells.length ∧
      s' = { s with
        cells := s.cells ++ [{ state := .pending [] [], outsideError, isSignal }]
        pending := s.pending + 1
        teardowns := s.teardowns ++ [s.cells.length] } := by
  unfold promise at h
  split at h <;> cases h
  exact ⟨by assumption, rfl, rfl⟩

/-- The state of future `f`. A foreign handle names no cell. -/
def cellState (s : Scheduler P) (f : Nat) : Option (CellState P) := s.cells[f]?.map Cell.state

def setCell (s : Scheduler P) (f : Nat) (state : CellState P) : Scheduler P :=
  { s with cells := s.cells.modify f fun c => { c with state } }

theorem cellState_setCell {s₀ : Scheduler P} (hs : s₀.cells = s.cells) {old : CellState P}
    (h : s.cellState f = some old) (state : CellState P) (g : Nat) :
    (s₀.setCell f state).cellState g = if f = g then some state else s.cellState g := by
  simp only [cellState, setCell, List.getElem?_modify, hs]
  by_cases hg : f = g
  · subst hg
    obtain ⟨c, hc, -⟩ := Option.map_eq_some_iff.mp h
    simp [hc]
  · simp [hg]

/-- Stores the result, unlinks the teardown, then queues waiters in suspension
order and observers in registration order; `none` is the `invalid_arg` of a
second resolution. -/
def resolve (s : Scheduler P) (f : Nat) (result : Result P.Val) : Option (Scheduler P) :=
  match s.cellState f with
  | some (.pending waiters observers) =>
    let settled : Scheduler P :=
      { s.setCell f (.ready result) with
        pending := s.pending - 1
        teardowns := s.teardowns.erase f }
    some (settled.enqueueAll
      (waiters.reverse.map (.resume · result) ++ observers.map (.deliver · result)))
  | _ => none

theorem resolve_eq_some {result : Result P.Val} (h : s.resolve f result = some s') :
    ∃ waiters observers, s.cellState f = some (.pending waiters observers) ∧
      s' = ({ s.setCell f (.ready result) with
          pending := s.pending - 1
          teardowns := s.teardowns.erase f } : Scheduler P).enqueueAll
        (waiters.reverse.map (.resume · result) ++ observers.map (.deliver · result)) := by
  unfold resolve at h
  split at h
  · next waiters observers heq =>
    cases h
    exact ⟨waiters, observers, heq, rfl⟩
  · cases h

def resolvedTwice : Exn := .invalidArgument "Temporal future resolved more than once"

def outsideErrorOf (s : Scheduler P) (f : Nat) : Error :=
  match s.cells[f]? with
  | some c => c.outsideError
  | none => .defect "future awaited outside its workflow scheduler"

/-- The handler of `Await`: saves the paused fiber on its future, or queues it
when the future settled first. -/
def addWaiter (s : Scheduler P) (f : Nat) (resume : Resp P.Val → P.Code) (frame : Frame P) :
    Scheduler P :=
  let k : Cont P := ⟨resume, frame⟩
  match s.cellState f with
  | some (.pending waiters observers) => s.setCell f (.pending (k :: waiters) observers)
  | some (.ready result) => s.enqueue (.resume k result)
  | _ => s.enqueue (.resume k (.error (s.outsideErrorOf f)))

theorem addWaiter_of_pending {waiters : List (Cont P)} {observers : List Nat}
    (h : s.cellState f = some (.pending waiters observers)) (resume : Resp P.Val → P.Code)
    (frame : Frame P) :
    s.addWaiter f resume frame =
      s.setCell f (.pending (⟨resume, frame⟩ :: waiters) observers) := by
  simp [addWaiter, h]

/-- The handler of `Abort_workflow`, which discontinues the continuation at once. -/
def captureAbort (s : Scheduler P) : Scheduler P := { s with abortRequested := true }

/-- Registers an observer. A settled future queues its delivery at once. -/
def subscribe (s : Scheduler P) (f : Nat) (observer : Result P.Val → P.Code) :
    Scheduler P × Nat :=
  let id := s.subscriptions.length
  let s : Scheduler P :=
    { s with
      subscriptions := s.subscriptions ++ [f]
      tokens := Function.update s.tokens id (some observer) }
  match s.cellState f with
  | some (.pending waiters observers) =>
    (s.setCell f (.pending waiters (observers ++ [id])), id)
  | some (.ready result) => (s.enqueue (.deliver id result), id)
  | some .closed => (s.enqueue (.deliver id (.error (s.outsideErrorOf f))), id)
  | none => (s, id)

/-- Registering an observer: on a pending future, on a settled one, or on a handle
of another scheduler. -/
theorem subscribe_cases (s : Scheduler P) (f : Nat) (observer : Result P.Val → P.Code) :
    let s₁ : Scheduler P :=
      { s with
        subscriptions := s.subscriptions ++ [f]
        tokens := Function.update s.tokens s.subscriptions.length (some observer) }
    (∃ waiters observers, s.cellState f = some (.pending waiters observers) ∧
      (s.subscribe f observer).1 =
        s₁.setCell f (.pending waiters (observers ++ [s.subscriptions.length]))) ∨
    (∃ ths, (∀ waiters observers, s.cellState f ≠ some (.pending waiters observers)) ∧
      (s.subscribe f observer).1 = s₁.enqueueAll ths ∧
      ∀ th ∈ ths, ∃ result, th = .deliver s.subscriptions.length result) := by
  dsimp only
  cases h : s.cellState f with
  | none =>
    refine .inr ⟨[], by simp, ?_, by simp⟩
    simp only [cellState] at h
    simp [subscribe, cellState, h, enqueueAll]
  | some state =>
    simp only [cellState] at h
    cases state with
    | pending waiters observers =>
      exact .inl ⟨waiters, observers, rfl, by simp [subscribe, cellState, h]⟩
    | ready result =>
      refine .inr ⟨[.deliver s.subscriptions.length result], by simp, ?_, by simp⟩
      simp [subscribe, cellState, h, enqueueAll]
    | closed =>
      refine .inr ⟨[.deliver s.subscriptions.length (.error (s.outsideErrorOf f))], by simp, ?_,
        by simp⟩
      simp [subscribe, cellState, h, enqueueAll, outsideErrorOf]

/-- Clears a subscription's token, so that its observer is not called (again). -/
def clearToken (s : Scheduler P) (id : Nat) : Scheduler P :=
  { s with tokens := Function.update s.tokens id none }

/-- Clears a subscription's token and unlinks it from a pending future. -/
def unsubscribe (s : Scheduler P) (id : Nat) : Scheduler P :=
  let s : Scheduler P := s.clearToken id
  match s.subscriptions[id]? with
  | none => s
  | some f =>
    match s.cellState f with
    | some (.pending waiters observers) => s.setCell f (.pending waiters (observers.erase id))
    | _ => s

/-- Unsubscribing unlinks the subscription if its future is pending. -/
theorem unsubscribe_cases (s : Scheduler P) (id : Nat) :
    s.unsubscribe id = s.clearToken id ∧
      (∀ f waiters observers, s.subscriptions[id]? = some f →
        s.cellState f ≠ some (.pending waiters observers)) ∨
    ∃ f waiters observers, s.subscriptions[id]? = some f ∧
      s.cellState f = some (.pending waiters observers) ∧
      s.unsubscribe id = (s.clearToken id).setCell f (.pending waiters (observers.erase id)) := by
  unfold unsubscribe
  dsimp only
  split
  · next h =>
    refine .inl ⟨rfl, fun f _ _ hf => ?_⟩
    rw [show s.subscriptions[id]? = none from h] at hf
    cases hf
  · next f h =>
    split
    · next waiters observers hcell => exact .inr ⟨f, waiters, observers, h, hcell, rfl⟩
    · next hcell =>
      refine .inl ⟨rfl, fun f' waiters observers hf' => ?_⟩
      obtain rfl : f = f' := Option.some.inj (h.symm.trans hf')
      exact hcell waiters observers

/-- Clears the tokens of a closed future's observers. -/
def clearTokens (s : Scheduler P) (ids : List Nat) : Scheduler P :=
  { s with tokens := fun id => if id ∈ ids then none else s.tokens id }

/-- Closes a pending future and hands back its waiters in suspension order. -/
def teardown (s : Scheduler P) (f : Nat) : Scheduler P × List (Cont P) :=
  match s.cellState f with
  | some (.pending waiters observers) =>
    ({ (s.setCell f .closed).clearTokens observers with
        pending := s.pending - 1 }, waiters.reverse)
  | _ => (s, [])

theorem teardown_cases (s : Scheduler P) (f : Nat) :
    (∃ waiters observers, s.cellState f = some (.pending waiters observers) ∧
      s.teardown f = ({ (s.setCell f .closed).clearTokens observers with
        pending := s.pending - 1 }, waiters.reverse)) ∨
    (∀ waiters observers, s.cellState f ≠ some (.pending waiters observers)) ∧
      s.teardown f = (s, []) := by
  unfold teardown
  split
  · next waiters observers h => exact .inl ⟨waiters, observers, h, rfl⟩
  · next h => exact .inr ⟨h, rfl⟩

@[simp] theorem teardown_active (s : Scheduler P) (f : Nat) :
    (s.teardown f).1.active = s.active := by
  unfold teardown
  split <;> rfl

/-- The head of `shutdown`: deactivates and takes the teardown registry. -/
def deactivate (s : Scheduler P) : Scheduler P :=
  { s with active := false, teardowns := [] }

def beginRun (s : Scheduler P) : Scheduler P := { s with abortRequested := false, running := true }

def endRun (s : Scheduler P) : Scheduler P := { s with running := false }

def pop (s : Scheduler P) : Option (Thunk P × Scheduler P) :=
  match s.queue with
  | [] => none
  | (_, th) :: rest => some (th, { s with queue := rest })

theorem pop_eq_some {th : Thunk P} (h : s.pop = some (th, s')) :
    ∃ n rest, s.queue = (n, th) :: rest ∧ s' = { s with queue := rest } := by
  unfold pop at h
  split at h
  · cases h
  · next n th' rest heq =>
    cases h
    exact ⟨n, rest, heq, rfl⟩

end Scheduler

end OcamlTemporal
