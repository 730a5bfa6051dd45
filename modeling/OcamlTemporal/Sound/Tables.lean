import OcamlTemporal.Lib.Ledger
import OcamlTemporal.Runtime.Progress
import OcamlTemporal.Runtime.Script

/-!
# OcamlTemporal.Sound.Tables

The operation tables of an execution keep the books of **one ledger**: a sequence
number is handed out once, is a key of at most one table, and its resolver runs at
most once. The context refines `Lib.Ledger` (`Reachable.tabled`), update by
update; what the ledger does not see, the phases of local activities and the start
stage of children, is the invariant `Phases`.
-/

namespace OcamlTemporal

open Relation (ReflTransGen)
open Lib (Ledger)

variable {P : Program}

/-- The tables of pending operations. -/
inductive Kind
  | activity
  | child
  | external
  | timer
  deriving DecidableEq, Repr

def allocatedNumbers (log : List ContextEvent) : List Nat :=
  log.filterMap fun
    | .allocated n => some n
    | _ => none

/-- The operations whose resolver was invoked, oldest first. -/
def invokedResolvers (log : List ContextEvent) : List Nat :=
  log.filterMap fun
    | .resolverInvoked seq => some seq
    | _ => none

/-- The children whose start-stage resolver was invoked, oldest first. -/
def invokedStarts (log : List ContextEvent) : List Nat :=
  log.filterMap fun
    | .startResolverInvoked seq => some seq
    | _ => none

def ContextEvent.isBooked : ContextEvent → Bool
  | .allocated _ | .resolverInvoked _ => true
  | _ => false

theorem booked_eq_nil {log : List ContextEvent} (h : ∀ e ∈ log, e.isBooked = false) :
    allocatedNumbers log = [] ∧ invokedResolvers log = [] := by
  refine ⟨List.filterMap_eq_nil_iff.mpr fun e he => ?_,
    List.filterMap_eq_nil_iff.mpr fun e he => ?_⟩ <;>
  · have := h e he
    cases e <;> first | rfl | cases this

theorem allocatedNumbers_append (log more : List ContextEvent) :
    allocatedNumbers (log ++ more) = allocatedNumbers log ++ allocatedNumbers more :=
  List.filterMap_append

theorem invokedResolvers_append (log more : List ContextEvent) :
    invokedResolvers (log ++ more) = invokedResolvers log ++ invokedResolvers more :=
  List.filterMap_append

/-- The keys of a table after an entry was added or removed. -/
theorem isSome_update_some {α : Type} (f : Nat → Option α) (n : Nat) (x : α) (m : Nat) :
    (Function.update f n (some x) m).isSome = (decide (m = n) || (f m).isSome) := by
  by_cases h : m = n
  · simp [h]
  · simp [h]

theorem isSome_update_none {α : Type} (f : Nat → Option α) (n m : Nat) :
    (Function.update f n none m).isSome = (!decide (m = n) && (f m).isSome) := by
  by_cases h : m = n
  · simp [h]
  · simp [h]

namespace Context

/-- Sequence `seq` is a key of the table of kind `k`. -/
def occupied (c : Context P) (seq : Nat) : Kind → Bool
  | .activity => (c.activities seq).isSome
  | .child => (c.childWorkflows seq).isSome
  | .external => (c.externalWorkflows seq).isSome
  | .timer => (c.timers seq).isSome

/-! ### The ledger behind the tables

An entry of the ledger is opened when a number becomes the key of a table and closed when its
resolver runs. Every update of the context is some operations of the ledger, so what a valid ledger
never does, no run does. -/

/-- The context keeps the books of the ledger `l`. -/
structure Refines (c : Context P) (l : Ledger Kind) : Prop where
  last : l.last = c.nextSequence
  entry : ∀ seq k, l.entry seq = some k ↔ c.occupied seq k = true
  closed : l.closed = invokedResolvers c.trace
  numbers : allocatedNumbers c.trace = List.range' 1 c.nextSequence

/-- Every ledger behind `c` can move to one behind `c'`. -/
def Simulated (c c' : Context P) : Prop :=
  ∀ l : Ledger Kind, Refines c l → ∃ l', ReflTransGen Ledger.Step l l' ∧ Refines c' l'

namespace Simulated

variable {c c' : Context P}

theorem trans {a b : Context P} (h : Simulated a b) (h' : Simulated b c) : Simulated a c := by
  intro l hl
  obtain ⟨m, hlm, hm⟩ := h l hl
  obtain ⟨n, hmn, hn⟩ := h' m hm
  exact ⟨n, hlm.trans hmn, hn⟩

/-- The tables keep their keys, and nothing is booked. -/
theorem of_same (es : List ContextEvent) (hes : ∀ e ∈ es, e.isBooked = false)
    (htrace : c'.trace = c.trace ++ es) (hlast : c'.nextSequence = c.nextSequence)
    (hocc : ∀ seq k, c'.occupied seq k = c.occupied seq k) : Simulated c c' := by
  intro l hl
  obtain ⟨ha, hr⟩ := booked_eq_nil hes
  refine ⟨l, .refl, hl.last.trans hlast.symm, fun seq k => ?_, ?_, ?_⟩
  · rw [hocc]
    exact hl.entry seq k
  · rw [htrace, invokedResolvers_append, hr, List.append_nil]
    exact hl.closed
  · rw [htrace, allocatedNumbers_append, ha, hlast, List.append_nil]
    exact hl.numbers

theorem refl (c : Context P) : Simulated c c :=
  .of_same [] (by simp) (List.append_nil _).symm rfl fun _ _ => rfl

theorem emit (h : Simulated c c') (command : Command) (owner : Option Nat) :
    Simulated c (c'.emit command owner) := by
  refine h.trans ?_
  by_cases htake : c'.takes command = true
  · exact .of_same [.emitted command owner] (by simp [ContextEvent.isBooked])
      (by simp [Context.emit, htake]) rfl fun _ _ => rfl
  · exact .of_same [] (by simp) (by simp [Context.emit, htake]) rfl fun _ _ => rfl

theorem numbers_allocate (h : allocatedNumbers c.trace = List.range' 1 c.nextSequence) :
    allocatedNumbers c.allocateSequence.trace =
      List.range' 1 c.allocateSequence.nextSequence := by
  have hsnoc : allocatedNumbers c.allocateSequence.trace =
      allocatedNumbers c.trace ++ [c.nextSequence + 1] := by
    simp [allocatedNumbers, allocateSequence]
  rw [hsnoc, h, allocateSequence, List.range'_1_concat]
  simp [Nat.add_comm]

theorem invokedResolvers_allocate (c : Context P) :
    invokedResolvers c.allocateSequence.trace = invokedResolvers c.trace := by
  simp [allocateSequence, invokedResolvers]

theorem allocate (c : Context P) : Simulated c c.allocateSequence := fun l hl =>
  ⟨l.skip, .single .skip, congrArg (· + 1) hl.last, hl.entry,
    hl.closed.trans (invokedResolvers_allocate c).symm, numbers_allocate hl.numbers⟩

/-- A reserved number becomes the key of one table. -/
theorem of_open (k : Kind) (htrace : c'.trace = c.allocateSequence.trace)
    (hlast : c'.nextSequence = c.nextSequence + 1)
    (hocc : ∀ seq k', c'.occupied seq k' = (decide (seq = c.nextSequence + 1) && decide
      (k' = k) || c.occupied seq k'))
    (hfresh : ∀ k', c.occupied (c.nextSequence + 1) k' = false) : Simulated c c' := by
  intro l hl
  refine ⟨l.openNext k, .single (.openNext k), ?_, fun seq k' => ?_, ?_, ?_⟩
  · rw [hlast, ← hl.last]
    rfl
  · rw [hocc, ← hl.last]
    simp only [Ledger.openNext]
    by_cases hseq : seq = l.last + 1
    · subst hseq
      rw [hl.last, hfresh k']
      simp [Function.update_self, eq_comm]
    · rw [Function.update_of_ne hseq, decide_eq_false hseq]
      simpa using hl.entry seq k'
  · rw [htrace]
    exact hl.closed.trans (invokedResolvers_allocate c).symm
  · rw [htrace, hlast]
    exact numbers_allocate hl.numbers

theorem entry_drop {l : Ledger Kind} (hl : Refines c l) {n : Nat} {k : Kind}
    (hk : c.occupied n k = true)
    (hocc : ∀ seq k',
      c'.occupied seq k' = (!(decide (seq = n) && decide (k' = k)) && c.occupied seq k'))
    (seq : Nat) (k' : Kind) : (l.drop n).entry seq = some k' ↔ c'.occupied seq k' = true := by
  rw [hocc]
  simp only [Ledger.drop]
  by_cases hseq : seq = n
  · subst hseq
    -- The ledger has one kind at `seq`, so removing it empties every table there.
    have honly : c.occupied seq k' = true → k' = k := fun h =>
      Option.some.inj (((hl.entry seq k').mpr h).symm.trans ((hl.entry seq k).mpr hk))
    rw [Function.update_self]
    simp only [reduceCtorEq, decide_true, Bool.true_and, Bool.and_eq_true, Bool.not_eq_true',
      decide_eq_false_iff_not, false_iff, not_and, Bool.not_eq_true]
    intro hne
    exact Bool.eq_false_iff.mpr fun h => hne (honly h)
  · rw [Function.update_of_ne hseq]
    simpa [hseq] using hl.entry seq k'

theorem of_drop (n : Nat) (k : Kind) (es : List ContextEvent) (hes : ∀ e ∈ es, e.isBooked = false)
    (htrace : c'.trace = c.trace ++ es) (hlast : c'.nextSequence = c.nextSequence)
    (hk : c.occupied n k = true)
    (hocc : ∀ seq k',
      c'.occupied seq k' = (!(decide (seq = n) && decide (k' = k)) && c.occupied seq k')) :
    Simulated c c' := by
  intro l hl
  obtain ⟨ha, hr⟩ := booked_eq_nil hes
  refine ⟨l.drop n, .single (.drop n), hl.last.trans hlast.symm, entry_drop hl hk hocc, ?_, ?_⟩
  · rw [htrace, invokedResolvers_append, hr, List.append_nil]
    exact hl.closed
  · rw [htrace, allocatedNumbers_append, ha, hlast, List.append_nil]
    exact hl.numbers

/-- An operation is settled: its entry is removed and its resolver runs. -/
theorem of_close (n : Nat) (k : Kind) (es : List ContextEvent) (hes : ∀ e ∈ es, e.isBooked = false)
    (htrace : c'.trace = c.trace ++ es ++ [.resolverInvoked n])
    (hlast : c'.nextSequence = c.nextSequence) (hk : c.occupied n k = true)
    (hocc : ∀ seq k',
      c'.occupied seq k' = (!(decide (seq = n) && decide (k' = k)) && c.occupied seq k')) :
    Simulated c c' := by
  intro l hl
  obtain ⟨ha, hr⟩ := booked_eq_nil hes
  refine ⟨l.close n, .single (.close ((hl.entry n k).mpr hk)), hl.last.trans hlast.symm,
    entry_drop hl hk hocc, ?_, ?_⟩
  · rw [htrace, invokedResolvers_append, invokedResolvers_append, hr, List.append_nil, ← hl.closed]
    rfl
  · rw [htrace, allocatedNumbers_append, allocatedNumbers_append, ha, hlast, List.append_nil,
      hl.numbers]
    exact List.append_nil _

end Simulated

def Fresh (c : Context P) : Prop := ∀ seq, c.nextSequence < seq → ∀ k, c.occupied seq k = false

variable {c c' : Context P}

theorem Refines.fresh {l : Ledger Kind} (h : Refines c l) (hl : l.Valid) : c.Fresh :=
  fun seq hlt k => by
  refine Bool.eq_false_iff.mpr fun hocc => ?_
  have hentry := (h.entry seq k).mpr hocc
  rw [hl.fresh seq (by rw [h.last]; exact hlt)] at hentry
  cases hentry

theorem Fresh.next (h : c.Fresh) (k : Kind) : c.occupied (c.nextSequence + 1) k = false :=
  h _ (Nat.lt_succ_self _) k

/-- Leaving a retry phase drops at most the entry of its timer. -/
theorem leaveBackoff_simulated (c : Context P) (seq : Nat) (la : LocalActivity)
    (ht : ∀ t, la.backoff = .timer t → (c.timers t).isSome = true) :
    Simulated c (c.leaveBackoff seq la) := by
  unfold leaveBackoff
  cases hb : la.backoff with
  | timer t =>
    have hstop : Simulated c { c with timers := Function.update c.timers t none } := by
      refine .of_drop t .timer [] (by simp) (List.append_nil _).symm rfl (ht t hb) fun n k => ?_
      cases k <;> simp [occupied, isSome_update_none]
    refine (hstop.emit (.cancelTimer t) (some seq)).trans ?_
    exact .of_same [.backoffCancelled seq (.timer t)] (by simp [ContextEvent.isBooked]) rfl rfl
      fun _ k => by cases k <;> rfl
  | idle | timerQueued | retryQueued =>
    exact .of_same [.backoffCancelled seq _] (by simp [ContextEvent.isBooked]) rfl rfl
      fun _ k => by cases k <;> rfl

def TimersHeld (c : Context P) : Prop :=
  ∀ seq la t, c.localActivities seq = some la → la.backoff = .timer t →
    (c.timers t).isSome = true

theorem removeActivity_simulated {seq : Nat} {a : Activity P} (h : c.activities seq = some a) :
    Simulated c (c.removeActivity seq) := by
  refine .of_close seq .activity [] (by simp) (by simp [removeActivity]) rfl
    (by simp [occupied, h]) fun n k => ?_
  cases k <;> simp [occupied, removeActivity, isSome_update_none]

theorem removeTimer_simulated {seq : Nat} {timer : Timer} (h : c.timers seq = some timer) :
    Simulated c (c.removeTimer seq) := by
  refine .of_close seq .timer [] (by simp) (by simp [removeTimer]) rfl
    (by simp [occupied, h]) fun n k => ?_
  cases k <;> simp [occupied, removeTimer, isSome_update_none]

/-- What operations and jobs do to the tables is an operation of the ledger. -/
theorem Act.simulated (h : Act c c') (hfresh : c.Fresh) (htimers : c.TimersHeld) :
    Simulated c c' := by
  cases h with
  | allocate => exact .allocate c
  | startTimer f ms =>
    refine .emit ?_ _ _
    refine .of_open .timer rfl rfl (fun seq k => ?_) hfresh.next
    cases k <;> simp [occupied, saveTimer, allocateSequence, isSome_update_some]
  | scheduleActivity f decode r | scheduleLocalActivity f decode r =>
    refine .emit ?_ _ _
    refine .of_open .activity rfl rfl (fun seq k => ?_) hfresh.next
    cases k <;> simp [occupied, saveActivity, allocateSequence, isSome_update_some]
  | startChild f started decode r =>
    refine .emit ?_ _ _
    refine .of_open .child rfl rfl (fun seq k => ?_) hfresh.next
    cases k <;> simp [occupied, saveChild, allocateSequence, isSome_update_some]
  | startExternal operation f command h =>
    refine .emit ?_ _ _
    refine .of_open .external rfl rfl (fun seq k => ?_) hfresh.next
    cases k <;> simp [occupied, saveExternal, allocateSequence, isSome_update_some]
  | cancelTimer _ _ h =>
    refine .emit ?_ _ _
    exact removeTimer_simulated h
  | fireSleep h => exact removeTimer_simulated h
  | fireStale h => exact removeTimer_simulated h
  | removeActivity h => exact removeActivity_simulated h
  | requestCancel =>
    refine .emit ?_ _ _
    exact .of_same [] (by simp) (List.append_nil _).symm rfl fun _ k => by cases k <;> rfl
  | @cancelBackoff seq handle la a hh hla h =>
    have hmarked : Simulated c (c.markCancelled seq handle) :=
      .of_same [] (by simp) (List.append_nil _).symm rfl fun _ k => by cases k <;> rfl
    refine hmarked.trans (.trans (leaveBackoff_simulated _ seq la fun t => htimers seq la t hla) ?_)
    exact removeActivity_simulated (by rw [leaveBackoff_activities]; exact h)
  | @leaveBackoff seq la hla => exact c.leaveBackoff_simulated seq la fun t => htimers seq la t hla
  | @cancelChild seq reason handle =>
    refine (Simulated.emit (.refl c) (.cancelChildWorkflow seq reason) none).trans ?_
    exact .of_same [] (by simp) (List.append_nil _).symm rfl fun _ k => by cases k <;> rfl
  | @acknowledgeStart seq child runId h hs =>
    refine .of_same [.startResolverInvoked seq] (by simp [ContextEvent.isBooked]) rfl rfl
      fun n k => ?_
    cases k with
    | child =>
      simp only [occupied, Context.acknowledgeStart, isSome_update_some]
      by_cases hn : n = seq
      · simp [hn, h]
      · simp [hn]
    | activity | external | timer => rfl
  | @failUnstarted seq child h =>
    refine .of_close seq .child [.startResolverInvoked seq] (by simp [ContextEvent.isBooked])
      (by simp [Context.removeUnstarted, markChildTerminal]) rfl (by simp [occupied, h]) fun n k =>
        ?_
    cases k <;> simp [occupied, Context.removeUnstarted, markChildTerminal, isSome_update_none]
  | @removeUnstarted seq child h =>
    refine .of_drop seq .child [.startResolverInvoked seq] (by simp [ContextEvent.isBooked]) rfl rfl
      (by simp [occupied, h]) fun n k => ?_
    cases k <;> simp [occupied, Context.removeUnstarted, isSome_update_none]
  | @resolveStarted seq child h =>
    refine .of_close seq .child [] (by simp)
      (by simp [removeStarted, markChildTerminal]) rfl (by simp [occupied, h]) fun n k => ?_
    cases k <;> simp [occupied, removeStarted, markChildTerminal, isSome_update_none]
  | @removeExternal seq e h =>
    refine .of_close seq .external [] (by simp) (by simp [Context.removeExternal]) rfl
      (by simp [occupied, h]) fun n k => ?_
    cases k <;> simp [occupied, Context.removeExternal, isSome_update_none]
  | emit command h =>
    refine .emit ?_ _ _
    exact .refl c
  | misc =>
    exact .of_same [] (by simp) (List.append_nil _).symm rfl fun _ k => by cases k <;> rfl

theorem Patch.simulated (h : Patch c c') : Simulated c c' := by
  obtain ⟨patches, markers, rfl, -⟩ := h.frame
  exact .of_same (markers.map (.emitted · none)) (by simp [ContextEvent.isBooked]) rfl rfl
    fun _ k => by cases k <;> rfl

theorem Retry.simulated (h : Retry c c') (hfresh : c.Fresh) : Simulated c c' := by
  cases h with
  | acceptBackoff =>
    exact .of_same [.backoffAccepted _] (by simp [ContextEvent.isBooked]) rfl rfl
      fun _ k => by cases k <;> rfl
  | startBackoffTimer =>
    refine .emit ?_ _ _
    refine .of_open .timer rfl rfl (fun n k => ?_) hfresh.next
    cases k <;> simp [occupied, allocateSequence, isSome_update_some]
  | @fireBackoff seq la t attempt time a h =>
    refine (removeTimer_simulated h).trans ?_
    exact .of_same [.backoffFired la seq] (by simp [ContextEvent.isBooked]) rfl rfl
      fun _ k => by cases k <;> rfl
  | retryLocalActivity =>
    refine .emit ?_ _ _
    exact .of_same [] (by simp) (List.append_nil _).symm rfl fun _ k => by cases k <;> rfl

theorem clearTables_simulated (c : Context P) : Simulated c c.clearTables := fun l hl =>
  ⟨l.clear, .single .clear, hl.last,
    fun _ k => by cases k <;> simp [Ledger.clear, occupied, Context.clearTables],
    by simpa [Ledger.clear, Context.clearTables, invokedResolvers] using hl.closed,
    by simpa [Context.clearTables, allocatedNumbers] using hl.numbers⟩

theorem Change.simulated (h : Change c c') (hfresh : c.Fresh) (htimers : c.TimersHeld) :
    Simulated c c' := by
  cases h with
  | act h => exact h.simulated hfresh htimers
  | patch h => exact h.simulated
  | retry h => exact h.simulated hfresh
  | respond id response => exact .emit (.refl c) _ _
  | updateBody id =>
    exact .of_same [.updateBody _] (by simp [ContextEvent.isBooked]) rfl rfl
      fun _ k => by cases k <;> rfl
  | terminate command h | emitTerminal command h =>
    refine (Simulated.emit (.refl c) command none).trans ?_
    exact .of_same [] (by simp) (List.append_nil _).symm rfl fun _ k => by cases k <;> rfl
  | takeCommands | discardCommands | returnNothing | setReplaying | close =>
    exact .of_same [] (by simp) (List.append_nil _).symm rfl fun _ k => by cases k <;> rfl
  | clearTables h => exact c.clearTables_simulated

/-! ### Phases of local activities -/

/-- A pending local activity is a pending activity, and it waits for its retry
timer exactly while the timer table holds that timer for it. -/
structure Phases (c : Context P) : Prop where
  activity : ∀ seq la, c.localActivities seq = some la → (c.activities seq).isSome = true
  timer : ∀ seq la t, c.localActivities seq = some la →
    (la.backoff = .timer t ↔ ∃ attempt time, c.timers t = some (.backoff seq attempt time))
  target : ∀ t seq attempt time, c.timers t = some (.backoff seq attempt time) →
    seq ≤ c.nextSequence ∧ c.timerHandles t = none
  handles : ∀ t, c.nextSequence < t → c.timerHandles t = none

namespace Phases

variable {c c' : Context P} {t seq : Nat} {la : LocalActivity}

theorem timersHeld (h : Phases c) : c.TimersHeld := fun seq la t hla ht => by
  obtain ⟨attempt, time, htimer⟩ := (h.timer seq la t hla).mp ht
  rw [htimer]
  rfl

/-- The tables of activities and timers stay as they are. -/
theorem of_eq (h : Phases c) (ha : c'.activities = c.activities)
    (hla : c'.localActivities = c.localActivities) (ht : c'.timers = c.timers)
    (hh : c'.timerHandles = c.timerHandles) (hn : c.nextSequence ≤ c'.nextSequence) :
    Phases c' := by
  refine ⟨?_, ?_, fun t seq attempt time htimer => ?_, fun t hlt => ?_⟩
  · rw [ha, hla]
    exact h.activity
  · rw [hla, ht]
    exact h.timer
  · rw [ht] at htimer
    obtain ⟨hle, hhandle⟩ := h.target t seq attempt time htimer
    exact ⟨Nat.le_trans hle hn, hh ▸ hhandle⟩
  · rw [hh]
    exact h.handles t (Nat.lt_of_le_of_lt hn hlt)

/-- A pending retry belongs to its local activity only while that one waits for it. -/
theorem target_eq (h : Phases c) {t' : Nat} {attempt : Int} {time : Option Timestamp}
    (htimer : c.timers t = some (.backoff seq attempt time)) (hla : c.localActivities seq = some la)
    (ht : la.backoff = .timer t') : t' = t := by
  have := (h.timer seq la t hla).mpr ⟨attempt, time, htimer⟩
  rw [ht] at this
  exact Backoff.timer.inj this

/-- No local activity waits for a timer that the table does not hold for it. -/
theorem ne_timer (h : Phases c) (hla : c.localActivities seq = some la)
    (ht : ∀ attempt time, c.timers t ≠ some (.backoff seq attempt time)) : la.backoff ≠ .timer t :=
  fun hb => by
    obtain ⟨attempt, time, htimer⟩ := (h.timer seq la t hla).mp hb
    exact ht attempt time htimer

/-- The number of a new operation is not in the timer table. -/
theorem timers_next (hfresh : c.Fresh) : c.timers (c.nextSequence + 1) = none := by
  simpa [occupied] using hfresh.next .timer

/-! The updates of the tables. What is kept at the changed key and at the others is a
matter of the two tables that `timer` compares. -/

theorem saveTimer (h : Phases c) (hfresh : c.Fresh) (f : Nat) :
    Phases (c.allocateSequence.saveTimer (c.nextSequence + 1) f) := by
  have hnone := timers_next hfresh
  obtain ⟨hactivity, htimer, htarget, hhandles⟩ := h
  constructor <;> simp only [Context.saveTimer, allocateSequence, Function.update_apply]
  · exact hactivity
  · grind
  · grind
  · grind

theorem saveActivity (h : Phases c) (f : Nat) (decode : Payload → P.Code)
    (request : Option ScheduledLocalActivity) :
    Phases (c.allocateSequence.saveActivity (c.nextSequence + 1) f decode request) := by
  -- A retry cannot belong to a number that was not handed out.
  have hunknown (t : Nat) (attempt : Int) (time : Option Timestamp) :
      c.timers t ≠ some (.backoff (c.nextSequence + 1) attempt time) :=
    fun ht => Nat.not_succ_le_self _ (h.target t _ attempt time ht).1
  obtain ⟨hactivity, htimer, htarget, hhandles⟩ := h
  cases request <;> constructor <;>
    simp only [Context.saveActivity, allocateSequence, Function.update_apply] <;> grind

/-- The timer table drops an entry that no local activity waits for. -/
theorem removeTimer (h : Phases c)
    (ht : ∀ seq la, c.localActivities seq = some la → la.backoff ≠ .timer t) :
    Phases (c.removeTimer t) := by
  obtain ⟨hactivity, htimer, htarget, hhandles⟩ := h
  constructor <;> simp only [Context.removeTimer, Function.update_apply]
  · exact hactivity
  · grind
  · grind
  · exact hhandles

theorem removeActivity (h : Phases c) (seq : Nat) : Phases (c.removeActivity seq) := by
  obtain ⟨hactivity, htimer, htarget, hhandles⟩ := h
  constructor <;> simp only [Context.removeActivity, Function.update_apply]
  · grind
  · grind
  · exact htarget
  · exact hhandles

/-- A local activity moves between phases without a timer. -/
theorem setPhase (h : Phases c) (la' : LocalActivity) (hla : c.localActivities seq = some la)
    (hold : ∀ t, la.backoff ≠ .timer t) (hnew : ∀ t, la'.backoff ≠ .timer t) :
    Phases { c with localActivities := Function.update c.localActivities seq (some la') } := by
  obtain ⟨hactivity, htimer, htarget, hhandles⟩ := h
  constructor <;> simp only [Function.update_apply]
  · grind
  · grind
  · exact htarget
  · exact hhandles

/-- A local activity leaves its timer phase, and the table drops the timer. -/
theorem stopTimer (h : Phases c) (la' : LocalActivity) (hla : c.localActivities seq = some la)
    (ht : la.backoff = .timer t) (hnew : ∀ u, la'.backoff ≠ .timer u) :
    Phases { c with
      timers := Function.update c.timers t none
      localActivities := Function.update c.localActivities seq (some la') } := by
  obtain ⟨hactivity, htimer, htarget, hhandles⟩ := h
  constructor <;> simp only [Function.update_apply]
  · grind
  · grind
  · grind
  · exact hhandles

/-- A local activity gets its retry timer under a reserved number. -/
theorem startTimer (h : Phases c) (hfresh : c.Fresh) (la' : LocalActivity)
    (hla : c.localActivities seq = some la) (hold : ∀ t, la.backoff ≠ .timer t)
    (hnew : la'.backoff = .timer (c.nextSequence + 1)) (attempt : Int) (time : Option Timestamp) :
    Phases { c.allocateSequence with
      localActivities := Function.update c.localActivities seq (some la')
      timers := Function.update c.timers (c.nextSequence + 1)
        (some (.backoff seq attempt time)) } := by
  have hnone := timers_next hfresh
  have hle : seq ≤ c.nextSequence := by
    by_contra hlt
    have hact := h.activity seq la hla
    rw [show (c.activities seq).isSome = false from hfresh seq (by omega) .activity] at hact
    cases hact
  obtain ⟨hactivity, htimer, htarget, hhandles⟩ := h
  constructor <;> simp only [Function.update_apply, allocateSequence]
  · grind
  · intro n la'' t hn
    by_cases ht : t = c.nextSequence + 1 ∧ n = seq
    · obtain ⟨rfl, rfl⟩ := ht
      obtain rfl : la' = la'' := by simpa using hn
      simp [hnew]
    · grind
  · grind
  · grind

theorem leaveBackoff (h : Phases c) (hla : c.localActivities seq = some la) :
    Phases (c.leaveBackoff seq la) := by
  unfold Context.leaveBackoff
  cases hb : la.backoff with
  | timer t =>
    exact (h.stopTimer { la with backoff := .idle } hla hb nofun).of_eq rfl rfl rfl rfl
      (Nat.le_refl _)
  | idle | timerQueued | retryQueued =>
    exact (h.setPhase { la with backoff := .idle } hla (by simp [hb]) nofun).of_eq
      rfl rfl rfl rfl (Nat.le_refl _)

theorem act (h : Phases c) (hfresh : c.Fresh) (hact : Act c c') : Phases c' := by
  have hle := Nat.le_succ c.nextSequence
  cases hact with
  | allocate => exact h.of_eq rfl rfl rfl rfl hle
  | startTimer f ms => exact (h.saveTimer hfresh f).of_eq rfl rfl rfl rfl (Nat.le_refl _)
  | scheduleActivity f decode r =>
    exact (h.saveActivity f decode none).of_eq rfl rfl rfl rfl (Nat.le_refl _)
  | scheduleLocalActivity f decode r =>
    exact (h.saveActivity f decode (some r)).of_eq rfl rfl rfl rfl (Nat.le_refl _)
  | startChild | startExternal => exact h.of_eq rfl rfl rfl rfl hle
  | @cancelTimer seq f timer hsealed hf ht =>
    refine (h.removeTimer fun n la hla => h.ne_timer hla fun attempt time hb => ?_).of_eq
      rfl rfl rfl rfl (Nat.le_refl _)
    -- A sleep has a handle, a retry has none.
    rw [(h.target _ _ _ _ hb).2] at hf
    cases hf
  | fireSleep ht =>
    refine h.removeTimer fun n la hla => h.ne_timer hla fun attempt time hb => ?_
    rw [ht] at hb
    cases hb
  | @fireStale seq target attempt time ht hstale =>
    refine h.removeTimer fun n la hla hb => ?_
    obtain ⟨a₁, t₁, hn⟩ := (h.timer n la seq hla).mp hb
    rw [ht] at hn
    cases hn
    exact hstale la seq hla hb
  | removeActivity => exact h.removeActivity _
  | @cancelBackoff seq handle la a hh hla =>
    have hmarked : Phases (c.markCancelled seq handle) := h.of_eq rfl rfl rfl rfl (Nat.le_refl _)
    exact (hmarked.leaveBackoff hla).removeActivity seq
  | @leaveBackoff seq la hla => exact h.leaveBackoff hla
  | _ => exact h.of_eq rfl rfl rfl rfl (Nat.le_refl _)

theorem retry (h : Phases c) (hfresh : c.Fresh) (hretry : Retry c c') : Phases c' := by
  cases hretry with
  | @acceptBackoff seq la hla hidle =>
    exact (h.setPhase { la with backoff := .timerQueued } hla (by simp [hidle]) nofun).of_eq
      rfl rfl rfl rfl (Nat.le_refl _)
  | @startBackoffTimer seq la attempt ms time hla hqueued =>
    exact (h.startTimer hfresh { la with backoff := .timer (c.nextSequence + 1) } hla
      (by simp [hqueued]) rfl attempt time).of_eq rfl rfl rfl rfl (Nat.le_refl _)
  | @fireBackoff seq target t attempt time a htimer ha ht =>
    obtain rfl := h.target_eq htimer ha ht
    exact (h.stopTimer { a with backoff := .retryQueued } ha ht nofun).of_eq
      rfl rfl rfl rfl (Nat.le_refl _)
  | @retryLocalActivity seq la attempt time hla hqueued =>
    exact (h.setPhase { la with
      backoff := .idle, attempt, originalScheduleTime := time } hla (by simp [hqueued]) nofun).of_eq
      rfl rfl rfl rfl (Nat.le_refl _)

theorem change (h : Phases c) (hfresh : c.Fresh) (hc : Change c c') : Phases c' := by
  cases hc with
  | act hact => exact h.act hfresh hact
  | patch hpatch =>
    obtain ⟨patches, markers, rfl, -⟩ := hpatch.frame
    exact h.of_eq rfl rfl rfl rfl (Nat.le_refl _)
  | retry hretry => exact h.retry hfresh hretry
  | clearTables =>
    refine ⟨fun _ _ hla => ?_, fun _ _ _ hla => ?_, fun _ _ _ _ ht => ?_, h.handles⟩
    · cases hla
    · cases hla
    · cases ht
  | _ => exact h.of_eq rfl rfl rfl rfl (Nat.le_refl _)

end Phases

/-! ### Start stages of children -/

theorem invokedStarts_append (log more : List ContextEvent) :
    invokedStarts (log ++ more) = invokedStarts log ++ invokedStarts more :=
  List.filterMap_append

theorem invokedStarts_emit (c : Context P) (command : Command) (owner : Option Nat) :
    invokedStarts (c.emit command owner).trace = invokedStarts c.trace := by
  unfold emit
  dsimp only
  split
  · rw [invokedStarts_append]
    exact List.append_nil _
  · rfl

theorem invokedStarts_leaveBackoff (c : Context P) (seq : Nat) (la : LocalActivity) :
    invokedStarts (c.leaveBackoff seq la).trace = invokedStarts c.trace := by
  unfold leaveBackoff
  dsimp only
  rw [invokedStarts_append]
  refine (List.append_nil _).trans ?_
  cases la.backoff with
  | timer t => exact invokedStarts_emit ..
  | idle | timerQueued | retryQueued => rfl

/-- A child whose start-stage resolver ran has a run ID for as long as it is
pending. -/
structure Starts (c : Context P) : Prop where
  entry : ∀ seq child, seq ∈ invokedStarts c.trace → c.childWorkflows seq = some child →
    child.startRunId ≠ none
  le : ∀ seq ∈ invokedStarts c.trace, seq ≤ c.nextSequence
  nodup : (invokedStarts c.trace).Nodup

namespace Starts

variable {c c' : Context P}

theorem of_eq (h : Starts c) (hlog : invokedStarts c'.trace = invokedStarts c.trace)
    (hchild : ∀ seq child, c'.childWorkflows seq = some child → c.childWorkflows seq = some child ∨
      c.nextSequence < seq)
    (hn : c.nextSequence ≤ c'.nextSequence) : Starts c' := by
  refine ⟨fun seq child hseq hc => ?_, fun seq hseq => ?_, hlog ▸ h.nodup⟩
  · rw [hlog] at hseq
    rcases hchild seq child hc with hc | hlt
    · exact h.entry seq child hseq hc
    · exact absurd (h.le seq hseq) (Nat.not_le_of_lt hlt)
  · rw [hlog] at hseq
    exact Nat.le_trans (h.le seq hseq) hn

/-- The start-stage resolver of a child without a run ID runs; the child gets one or
is removed. -/
theorem of_started (h : Starts c) {seq : Nat} {child : Child P} (es : List ContextEvent)
    (hc : c.childWorkflows seq = some child) (hs : child.startRunId = none)
    (hle : seq ≤ c.nextSequence) (htrace : c'.trace = c.trace ++ .startResolverInvoked seq :: es)
    (hes : invokedStarts es = [])
    (hchild : ∀ n child', c'.childWorkflows n = some child' →
      if n = seq then child'.startRunId ≠ none else c.childWorkflows n = some child')
    (hn : c'.nextSequence = c.nextSequence) : Starts c' := by
  have hlog : invokedStarts c'.trace = invokedStarts c.trace ++ [seq] := by
    have hcons : invokedStarts (.startResolverInvoked seq :: es) = [seq] := by
      rw [show invokedStarts (.startResolverInvoked seq :: es) = seq ::
        invokedStarts es from rfl, hes]
    rw [htrace, invokedStarts_append, hcons]
  have hnew : seq ∉ invokedStarts c.trace := fun hmem => h.entry seq child hmem hc hs
  refine ⟨fun n child' hmem hc' => ?_, fun n hmem => ?_, ?_⟩
  · have := hchild n child' hc'
    split at this
    · exact this
    · next hne =>
      rw [hlog, List.mem_append, List.mem_singleton] at hmem
      exact h.entry n child' (hmem.resolve_right hne) this
  · rw [hlog, List.mem_append, List.mem_singleton] at hmem
    rw [hn]
    rcases hmem with hmem | rfl
    · exact h.le n hmem
    · exact hle
  · rw [hlog]
    exact h.nodup.append (List.nodup_singleton seq) (by simpa using hnew)

theorem same (h : Starts c) (hlog : invokedStarts c'.trace = invokedStarts c.trace)
    (hchild : c'.childWorkflows = c.childWorkflows) (hn : c.nextSequence ≤ c'.nextSequence) :
    Starts c' :=
  h.of_eq hlog (fun _ _ hc => .inl (hchild ▸ hc)) hn

theorem act (h : Starts c) (hfresh : c.Fresh) (hact : Act c c') : Starts c' := by
  have hle {seq : Nat} {child : Child P} (hc : c.childWorkflows seq = some child) :
      seq ≤ c.nextSequence := by
    by_contra hlt
    have : (c.childWorkflows seq).isSome = false := hfresh seq (by omega) .child
    rw [hc] at this
    cases this
  have hsucc := Nat.le_succ c.nextSequence
  have hrefl := Nat.le_refl c.nextSequence
  cases hact with
  | startChild f started decode r =>
    refine h.of_eq ?_ (fun seq child hc => ?_) hsucc
    · rw [invokedStarts_emit]
      simp [saveChild, allocateSequence, invokedStarts]
    · have hc : Function.update c.childWorkflows _ _ seq = _ := hc
      by_cases hn : seq = c.nextSequence + 1
      · exact .inr (hn ▸ Nat.lt_succ_self _)
      · exact .inl ((Function.update_of_ne hn ..).symm.trans hc)
  | @acknowledgeStart seq child runId hc hs =>
    refine h.of_started [] hc hs (hle hc) rfl rfl (fun n child' hc' => ?_) rfl
    have hc' : Function.update c.childWorkflows _ _ n = _ := hc'
    split
    · next hn =>
      subst hn
      rw [Function.update_self] at hc'
      cases hc'
      simp
    · next hn => exact (Function.update_of_ne hn ..).symm.trans hc'
  | @failUnstarted seq child hc hs =>
    refine h.of_started [.resolverInvoked seq] hc hs (hle hc)
      (by simp [markChildTerminal, Context.removeUnstarted]) rfl (fun n child' hc' => ?_) rfl
    have hc' : Function.update c.childWorkflows _ _ n = _ := hc'
    split
    · next hn =>
      subst hn
      simp at hc'
    · next hn => exact (Function.update_of_ne hn ..).symm.trans hc'
  | @removeUnstarted seq child hc hs =>
    refine h.of_started [] hc hs (hle hc) rfl rfl (fun n child' hc' => ?_) rfl
    have hc' : Function.update c.childWorkflows _ _ n = _ := hc'
    split
    · next hn =>
      subst hn
      simp at hc'
    · next hn => exact (Function.update_of_ne hn ..).symm.trans hc'
  | @resolveStarted seq child hc =>
    refine h.of_eq ?_ (fun n child' hc' => .inl ?_) hrefl
    · simp [invokedStarts, markChildTerminal, removeStarted]
    · have hc' : Function.update c.childWorkflows _ _ n = _ := hc'
      by_cases hn : n = seq
      · subst hn
        simp at hc'
      · exact (Function.update_of_ne hn ..).symm.trans hc'
  | allocate => exact h.same (by simp [invokedStarts, allocateSequence]) rfl hsucc
  | startTimer | scheduleActivity | scheduleLocalActivity | startExternal =>
    refine h.same ?_ rfl hsucc
    rw [invokedStarts_emit]
    simp [invokedStarts, allocateSequence, saveTimer, saveActivity, saveExternal]
  | cancelTimer =>
    refine h.same ?_ rfl hrefl
    rw [invokedStarts_emit]
    simp [invokedStarts, Context.removeTimer]
  | requestCancel | emit | cancelChild => exact h.same (invokedStarts_emit ..) rfl hrefl
  | fireSleep | fireStale => exact h.same (by simp [invokedStarts, Context.removeTimer]) rfl hrefl
  | removeActivity => exact h.same (by simp [invokedStarts, Context.removeActivity]) rfl hrefl
  | @cancelBackoff seq handle la =>
    have hmarked : Starts (c.markCancelled seq handle) := h.same rfl rfl hrefl
    refine hmarked.same ?_ (leaveBackoff_childWorkflows _ seq la)
      (Nat.le_of_eq (leaveBackoff_nextSequence (c.markCancelled seq handle) seq la).symm)
    rw [← (c.markCancelled seq handle).invokedStarts_leaveBackoff seq la]
    simp [invokedStarts, Context.removeActivity]
  | @leaveBackoff seq la =>
    exact h.same (c.invokedStarts_leaveBackoff seq la) (leaveBackoff_childWorkflows c seq la)
      (Nat.le_of_eq (leaveBackoff_nextSequence c seq la).symm)
  | removeExternal => exact h.same (by simp [invokedStarts, Context.removeExternal]) rfl hrefl
  | misc => exact h.same rfl rfl hrefl

theorem retry (h : Starts c) (hretry : Retry c c') : Starts c' := by
  cases hretry with
  | acceptBackoff =>
    exact h.same (by simp [invokedStarts, Context.acceptBackoff]) rfl (Nat.le_refl _)
  | startBackoffTimer =>
    refine h.same ((invokedStarts_emit ..).trans ?_) rfl (Nat.le_succ _)
    simp [invokedStarts, allocateSequence]
  | fireBackoff =>
    exact h.same (by simp [invokedStarts, queueRetry, Context.removeTimer]) rfl (Nat.le_refl _)
  | retryLocalActivity => exact h.same (invokedStarts_emit ..) rfl (Nat.le_refl _)

theorem change (h : Starts c) (hfresh : c.Fresh) (hc : Change c c') : Starts c' := by
  cases hc with
  | act hact => exact h.act hfresh hact
  | patch hpatch =>
    obtain ⟨patches, markers, rfl, -⟩ := hpatch.frame
    exact h.same (by simp [invokedStarts, List.filterMap_map]) rfl
      (Nat.le_refl _)
  | retry hretry => exact h.retry hretry
  | respond | terminate | emitTerminal =>
    exact h.same (invokedStarts_emit ..) rfl (Nat.le_refl _)
  | updateBody => exact h.same (by simp [invokedStarts, record]) rfl (Nat.le_refl _)
  | clearTables =>
    refine h.of_eq (by simp [invokedStarts, Context.clearTables]) (fun _ _ hc => ?_) (Nat.le_refl _)
    cases hc
  | takeCommands | discardCommands | returnNothing | setReplaying | close =>
    exact h.same rfl rfl (Nat.le_refl _)

end Starts

/-! ### Whole runs -/

/-- The books of the tables are in order: some valid ledger has them, the local activities agree
with the timers they wait for, and no child has started twice. -/
structure Tabled (c : Context P) : Prop where
  ledger : ∃ l : Ledger Kind, l.Valid ∧ Refines c l
  phases : Phases c
  starts : Starts c

theorem Tabled.change (h : Tabled c) (hc : Change c c') : Tabled c' := by
  obtain ⟨l, hl, href⟩ := h.ledger
  have hfresh := href.fresh hl
  obtain ⟨l', hsteps, href'⟩ := hc.simulated hfresh h.phases.timersHeld l href
  exact ⟨⟨l', invariant_of_changes (fun _ _ h => h.valid) hsteps hl, href'⟩,
    h.phases.change hfresh hc, h.starts.change hfresh hc⟩

theorem tabled_create : Tabled (Context.create P) := by
  refine ⟨⟨.empty, Ledger.valid_empty, rfl, fun _ k => ?_, rfl, rfl⟩, ⟨?_, ?_, ?_, ?_⟩,
    ⟨?_, ?_, List.nodup_nil⟩⟩
  · cases k <;> simp [Ledger.empty, occupied, create]
  all_goals simp [create, invokedStarts]

end Context

/-- **The context refines a ledger** in every state an execution passes through. -/
theorem Reachable.tabled {c : Config P} (hc : Reachable P c) : c.store.ctx.Tabled :=
  hc.ctx_induction Context.tabled_create fun _ _ h hc => hc.change h

/-! ### Jobs about unknown operations

A job is awaited if the table of its kind holds its number in the right stage. One that is not
awaited fails the task and leaves the tables alone. -/

/-- The table and the sequence a resolve or fire job is about. -/
def Job.target : Job → Option (Kind × Nat)
  | .resolveActivity seq _ | .resolveLocalActivityBackoff seq _ _ _ => some (.activity, seq)
  | .resolveChildWorkflowStart seq _ | .resolveChildWorkflow seq _ => some (.child, seq)
  | .resolveSignalExternalWorkflow seq _ | .resolveRequestCancelExternalWorkflow seq _ =>
    some (.external, seq)
  | .fireTimer seq => some (.timer, seq)
  | _ => none

/-- An operation that the job can resolve is pending. -/
def Context.awaits (c : Context P) : Job → Bool
  | .resolveActivity seq _ => (c.activities seq).isSome
  | .resolveLocalActivityBackoff seq _ _ _ => (c.localActivities seq).isSome
  | .resolveChildWorkflowStart seq _ => (c.childWorkflows seq).any (·.startRunId.isNone)
  | .resolveChildWorkflow seq _ => (c.childWorkflows seq).isSome
  | .resolveSignalExternalWorkflow seq _ => (c.externalWorkflows seq).any (·.operation = .signal)
  | .resolveRequestCancelExternalWorkflow seq _ =>
    (c.externalWorkflows seq).any (·.operation = .cancel)
  | .fireTimer seq => (c.timers seq).isSome
  | _ => false

/-- What a resolve or fire job does before its error, if any, fails the task. -/
def State.resolution (s : State P) : Job → Option (Applied P)
  | .resolveActivity seq result => some (s.resolveActivity seq result)
  | .resolveLocalActivityBackoff seq attempt milliseconds originalScheduleTime =>
    some (s.resolveLocalActivityBackoff seq attempt milliseconds originalScheduleTime)
  | .resolveChildWorkflowStart seq result => some (s.resolveChildWorkflowStart seq result)
  | .resolveChildWorkflow seq result => some (s.resolveChildWorkflow seq result)
  | .resolveSignalExternalWorkflow seq result =>
    some (s.resolveExternalWorkflow .signal seq result)
  | .resolveRequestCancelExternalWorkflow seq result =>
    some (s.resolveExternalWorkflow .cancel seq result)
  | .fireTimer seq => some (s.fireTimer seq)
  | _ => none

variable {job : Job} {k : Kind} {seq : Nat}

namespace Context.Tabled

variable {c : Context P} {seq : Nat} {k : Kind}

theorem occupied_unique (h : c.Tabled) {k' : Kind} (hk : c.occupied seq k = true)
    (hk' : c.occupied seq k' = true) : k = k' := by
  obtain ⟨l, -, href⟩ := h.ledger
  exact Option.some.inj (((href.entry seq k).mpr hk).symm.trans ((href.entry seq k').mpr hk'))

theorem numbers (h : c.Tabled) : allocatedNumbers c.trace = List.range' 1 c.nextSequence := by
  obtain ⟨l, -, href⟩ := h.ledger
  exact href.numbers

theorem allocated_of_occupied (h : c.Tabled) (hk : c.occupied seq k = true) :
    seq ∈ allocatedNumbers c.trace := by
  obtain ⟨l, hl, href⟩ := h.ledger
  have hle := hl.entry_le ((href.entry seq k).mpr hk)
  rw [href.last] at hle
  rw [href.numbers, List.mem_range'_1]
  omega

theorem resolved_nodup (h : c.Tabled) : (invokedResolvers c.trace).Nodup := by
  obtain ⟨l, hl, href⟩ := h.ledger
  exact href.closed ▸ hl.nodup

end Context.Tabled

end OcamlTemporal
