import OcamlTemporal.Lib.Protocol
import OcamlTemporal.Sound.Queue
import OcamlTemporal.Sound.Tables

/-!
# OcamlTemporal.Sound.LocalActivities

The retries of a local activity. Each attempt that Core hands back waits for a
timer the workflow owns; starting the timer and scheduling the next attempt are
queued work, so a cancellation or a terminal result can come between any two
steps. **`LocalState.Step`** is the protocol of one activity, over what the context
did for it; every run of an unsealed context follows it (`Reachable.localized`), and
the protocol bounds attempts, timers and cancellations.
-/

namespace OcamlTemporal

open Lib (Follows split_append)

variable {P : Program}

/-! ### The protocol of one local activity -/

/-- What the context does for one local activity. -/
inductive LocalEvent
  -- a schedule command was emitted
  | scheduled (attempt : Int)
  -- a backoff job was accepted
  | accepted
  | timerStarted (timer : Nat)
  | timerFired (timer : Nat)
  | timerCancelled (timer : Nat)
  -- a cancellation was accepted in the given retry phase
  | cancelled (phase : Backoff)
  -- a request-cancel command was emitted
  | cancelRequested
  -- the resolver was invoked
  | resolved
  deriving DecidableEq, Repr

/-- The states of the protocol. `lastTimer` is the last retry timer; timer numbers
grow. -/
inductive LocalState
  | new
  | live (attempt : Int) (phase : Backoff) (lastTimer : Nat)
  -- the cancellation of the retry timer was emitted
  | stopping (timer : Nat)
  -- the backoff was left; only the resolver follows
  | leaving
  | gone
  deriving DecidableEq, Repr

/-- The protocol: which events are allowed in which state. -/
inductive LocalState.Step : LocalState → LocalEvent → LocalState → Prop
  | schedule : Step .new (.scheduled 1) (.live 1 .idle 0)
  | accept {a : Int} {n : Nat} : Step (.live a .idle n) .accepted (.live a .timerQueued n)
  | request {a : Int} {n : Nat} : Step (.live a .idle n) .cancelRequested (.live a .idle n)
  | start {a : Int} {n t : Nat} (h : n < t) :
      Step (.live a .timerQueued n) (.timerStarted t) (.live a (.timer t) t)
  | fire {a : Int} {n t : Nat} :
      Step (.live a (.timer t) n) (.timerFired t) (.live a .retryQueued n)
  | retry {a a' : Int} {n : Nat} (h : a < a') :
      Step (.live a .retryQueued n) (.scheduled a') (.live a' .idle n)
  -- cancellation
  | stop {a : Int} {n t : Nat} : Step (.live a (.timer t) n) (.timerCancelled t) (.stopping t)
  | leaveTimer {t : Nat} : Step (.stopping t) (.cancelled (.timer t)) .leaving
  | leave {a : Int} {n : Nat} {p : Backoff} (h : ∀ t, p ≠ .timer t) :
      Step (.live a p n) (.cancelled p) .leaving
  -- the end
  | resolve {s : LocalState} (h : ∀ t, s ≠ .stopping t) : Step s .resolved .gone

def localEvent (seq : Nat) : ContextEvent → Option LocalEvent
  | .emitted (.scheduleLocalActivity n attempt _ _) _ =>
    if n = seq then some (.scheduled attempt) else none
  | .emitted (.startTimer t _) (some n) => if n = seq then some (.timerStarted t) else none
  | .emitted (.cancelTimer t) (some n) => if n = seq then some (.timerCancelled t) else none
  | .emitted (.requestCancelLocalActivity n) _ => if n = seq then some .cancelRequested else none
  | .backoffAccepted n => if n = seq then some .accepted else none
  | .backoffFired n t => if n = seq then some (.timerFired t) else none
  | .backoffCancelled n phase => if n = seq then some (.cancelled phase) else none
  | .resolverInvoked n => if n = seq then some .resolved else none
  | _ => none

/-- What the context did for local activity `seq`, oldest first. -/
def localLog (seq : Nat) (log : List ContextEvent) : List LocalEvent :=
  log.filterMap (localEvent seq)

def attempts (log : List LocalEvent) : List Int :=
  log.filterMap fun
    | .scheduled attempt => some attempt
    | _ => none

def startedTimers (log : List LocalEvent) : List Nat :=
  log.filterMap fun
    | .timerStarted t => some t
    | _ => none

def firedTimers (log : List LocalEvent) : List Nat :=
  log.filterMap fun
    | .timerFired t => some t
    | _ => none

def cancelledTimers (log : List LocalEvent) : List Nat :=
  log.filterMap fun
    | .timerCancelled t => some t
    | _ => none

/-- A backoff was accepted and the next attempt has not been scheduled. -/
def InBackoff (log : List LocalEvent) : Prop :=
  ∃ before after, log = before ++ .accepted :: after ∧ attempts after = []

section Protocol

theorem attempts_append (log more : List LocalEvent) :
    attempts (log ++ more) = attempts log ++ attempts more :=
  List.filterMap_append

theorem startedTimers_append (log more : List LocalEvent) :
    startedTimers (log ++ more) = startedTimers log ++ startedTimers more :=
  List.filterMap_append

theorem firedTimers_append (log more : List LocalEvent) :
    firedTimers (log ++ more) = firedTimers log ++ firedTimers more :=
  List.filterMap_append

theorem cancelledTimers_append (log more : List LocalEvent) :
    cancelledTimers (log ++ more) = cancelledTimers log ++ cancelledTimers more :=
  List.filterMap_append

variable {s : LocalState} {log : List LocalEvent}

open LocalState

theorem attempts_follows (h : Follows Step .new log s) :
    (attempts log).Pairwise (· < ·) ∧
      (s = .new → attempts log = []) ∧
      ∀ a p n, s = .live a p n → ∀ b ∈ attempts log, b ≤ a := by
  induction h with
  | nil => simp [attempts]
  | @snoc log m s' e h he ih =>
    obtain ⟨hpair, hnew, hlive⟩ := ih
    have hsame (hnone : attempts [e] = []) : attempts (log ++ [e]) = attempts log := by
      rw [attempts_append, hnone, List.append_nil]
    cases he with
    | schedule =>
      rw [attempts_append, hnew rfl]
      simp [attempts]
    | @retry a a' n hlt =>
      rw [show attempts (log ++ [.scheduled a']) = attempts log ++ [a'] from attempts_append ..]
      refine ⟨?_, nofun, ?_⟩
      · rw [List.pairwise_append]
        refine ⟨hpair, List.pairwise_singleton _ _, fun b hb c hc => ?_⟩
        rw [List.mem_singleton.mp hc]
        exact Int.lt_of_le_of_lt (hlive _ _ _ rfl b hb) hlt
      · rintro a₁ p n₁ ⟨⟩ b hb
        rcases List.mem_append.mp hb with hb | hb
        · exact Int.le_of_lt (Int.lt_of_le_of_lt (hlive _ _ _ rfl b hb) hlt)
        · exact Int.le_of_eq (List.mem_singleton.mp hb)
    | accept | request | start | fire =>
      rw [hsame rfl]
      refine ⟨hpair, nofun, ?_⟩
      rintro a p n ⟨⟩
      exact hlive _ _ _ rfl
    | stop | leaveTimer | leave | resolve =>
      rw [hsame rfl]
      exact ⟨hpair, nofun, nofun⟩

/-- The retry timers of a log that begins with a running attempt and schedules no
other one, phase by phase. -/
def BetweenAttempts (log : List LocalEvent) : LocalState → Prop
  | .live _ .idle _ | .live _ .timerQueued _ =>
    startedTimers log = [] ∧ firedTimers log = [] ∧ cancelledTimers log = []
  | .live _ (.timer t) _ =>
    startedTimers log = [t] ∧ firedTimers log = [] ∧ cancelledTimers log = []
  | .live _ .retryQueued _ =>
    ∃ t, startedTimers log = [t] ∧ firedTimers log = [t] ∧ cancelledTimers log = []
  | .new => False
  | _ => True

variable {a : Int} {n : Nat} {after : List LocalEvent}

theorem betweenAttempts_follows (h : Follows Step (.live a .idle n) log s)
    (hnone : attempts log = []) : BetweenAttempts log s := by
  induction h with
  | nil => exact ⟨rfl, rfl, rfl⟩
  | @snoc log m s' e h he ih =>
    rw [attempts_append, List.append_eq_nil_iff] at hnone
    have ih := ih hnone.1
    have happend := hnone.2
    cases he with
    | schedule => exact ih.elim
    | retry => cases happend
    | accept | request =>
      simpa [BetweenAttempts, startedTimers, firedTimers, cancelledTimers] using ih
    | start =>
      obtain ⟨hs, hf, hc⟩ := ih
      refine ⟨?_, ?_, ?_⟩
      · rw [startedTimers_append, hs]
        rfl
      · rw [firedTimers_append, hf]
        rfl
      · rw [cancelledTimers_append, hc]
        rfl
    | @fire a n t =>
      obtain ⟨hs, hf, hc⟩ := ih
      refine ⟨t, ?_, ?_, ?_⟩
      · rw [startedTimers_append, hs]
        rfl
      · rw [firedTimers_append, hf]
        rfl
      · rw [cancelledTimers_append, hc]
        rfl
    | stop | leaveTimer | leave | resolve => trivial

/-- **Between two attempts** exactly one timer was started; it fired and none was
cancelled. -/
theorem one_timer_between {before between : List LocalEvent} {a' : Int}
    (h : Follows Step .new log s)
    (heq : log = before ++ .scheduled a :: (between ++ .scheduled a' :: after))
    (hnone : attempts between = []) :
    ∃ t, startedTimers between = [t] ∧ firedTimers between = [t] ∧
      cancelledTimers between = [] := by
  obtain ⟨m, m', -, hfirst, hrest⟩ := h.split heq
  obtain ⟨r, r', hbetween, hsecond, -⟩ := hrest.split rfl
  -- The first attempt is running and idle, the second one follows a fired timer.
  have hidle : ∃ b n, m' = .live b .idle n := by
    cases hfirst with
    | schedule => exact ⟨_, _, rfl⟩
    | retry => exact ⟨_, _, rfl⟩
  obtain ⟨b, n, rfl⟩ := hidle
  have hbetween := betweenAttempts_follows hbetween hnone
  cases hsecond with
  | schedule => exact hbetween.elim
  | retry => exact hbetween

/-- **After a cancellation in a backoff** only the resolver follows. -/
theorem resolved_of_leaving (h : Follows Step .leaving after s) : ∀ e ∈ after, e = .resolved := by
  suffices (s = .leaving ∨ s = .gone) ∧ ∀ e ∈ after, e = .resolved from this.2
  induction h with
  | nil => simp
  | @snoc after m s' e _ he ih =>
    obtain ⟨hs, hall⟩ := ih
    obtain ⟨rfl, rfl⟩ : e = .resolved ∧ s' = .gone := by
      rcases hs with rfl | rfl <;> cases he <;> exact ⟨rfl, rfl⟩
    refine ⟨.inr rfl, fun e he => ?_⟩
    rcases List.mem_append.mp he with he | he
    · exact hall e he
    · exact List.mem_singleton.mp he

theorem follows_cancelled {before : List LocalEvent} {p : Backoff} (h : Follows Step .new log s)
    (heq : log = before ++ .cancelled p :: after) : ∀ e ∈ after, e = .resolved := by
  obtain ⟨m, m', -, hstep, hrest⟩ := h.split heq
  cases hstep with
  | leaveTimer => exact resolved_of_leaving hrest
  | leave => exact resolved_of_leaving hrest

/-- **No cancellation is requested from Core in a backoff.** -/
theorem not_inBackoff_of_idle (h : Follows Step .new log (.live a .idle n)) : ¬InBackoff log := by
  generalize hs : LocalState.live a .idle n = s at h
  induction h generalizing a n with
  | nil => cases hs
  | @snoc log m s' e h he ih =>
    rintro ⟨before, after, heq, hnone⟩
    rcases split_append heq with ⟨rest, rfl, rfl⟩ | ⟨rest, rfl, hmore⟩
    · -- The backoff was accepted before this event, which schedules nothing.
      rw [attempts_append, List.append_eq_nil_iff] at hnone
      cases he with
      | request => exact ih rfl ⟨before, rest, rfl, hnone.1⟩
      | schedule => cases hnone.2
      | retry => cases hnone.2
      | _ => cases hs
    · cases rest with
      | nil =>
        obtain ⟨rfl, -⟩ := List.cons.inj hmore
        cases he
        cases hs
      | cons => simp at hmore

/-- An activity past its backoff job and before the next attempt is in a backoff. -/
theorem inBackoff_of_live {p : Backoff} (h : Follows Step .new log (.live a p n)) (hp : p ≠ .idle) :
    InBackoff log := by
  generalize hs : LocalState.live a p n = s at h
  induction h generalizing a p n with
  | nil => cases hs
  | @snoc log m s' e h he ih =>
    have hstill (hlog : InBackoff log) (he : attempts [e] = []) : InBackoff (log ++ [e]) := by
      obtain ⟨before, after, rfl, hnone⟩ := hlog
      exact ⟨before, after ++ [e], by simp, by rw [attempts_append, hnone, he]; rfl⟩
    cases he with
    | accept => exact ⟨log, [], rfl, rfl⟩
    | start | fire => exact hstill (ih (by simp) rfl) rfl
    | schedule | request | retry =>
      cases hs
      exact absurd rfl hp
    | stop | leaveTimer | leave | resolve => cases hs

/-- Some cancellation found timer `t` started and not fired. -/
def StoppedTimer (log : List LocalEvent) (t : Nat) : Prop :=
  ∃ before p after, log = before ++ .cancelled p :: after ∧
    .timerStarted t ∈ before ∧ .timerFired t ∉ before

/-- What the log says about the retry timers in each state. -/
def TimerBooks (log : List LocalEvent) : LocalState → Prop
  | .new => ∀ e ∈ log, e = .resolved
  | .live _ p n =>
    (∀ t, .timerCancelled t ∉ log) ∧ (∀ q, .cancelled q ∉ log) ∧
    (∀ t, .timerStarted t ∈ log ∨ .timerFired t ∈ log → t ≤ n) ∧
    ∀ t, .timerStarted t ∈ log ∧ .timerFired t ∉ log ↔ p = .timer t
  | .stopping t =>
    (∀ u, .timerCancelled u ∈ log ↔ u = t) ∧ (∀ q, .cancelled q ∉ log) ∧
    ∀ u, .timerStarted u ∈ log ∧ .timerFired u ∉ log ↔ u = t
  | .leaving | .gone => ∀ t, .timerCancelled t ∈ log ↔ StoppedTimer log t

theorem stoppedTimer_snoc {q : Backoff} (hnone : ∀ q, .cancelled q ∉ log) (t : Nat) :
    StoppedTimer (log ++ [.cancelled q]) t ↔ .timerStarted t ∈ log ∧ .timerFired t ∉ log := by
  constructor
  · rintro ⟨before, p, after, heq, hs⟩
    rcases split_append heq with ⟨rest, rfl, -⟩ | ⟨rest, rfl, hmore⟩
    · exact absurd (by simp) (hnone p)
    · cases rest with
      | nil => simpa using hs
      | cons => simp at hmore
  · exact fun hs => ⟨log, q, [], rfl, hs⟩

theorem stoppedTimer_resolved (t : Nat) :
    StoppedTimer (log ++ [.resolved]) t ↔ StoppedTimer log t := by
  constructor
  · rintro ⟨before, p, after, heq, hs⟩
    rcases split_append heq with ⟨rest, rfl, -⟩ | ⟨rest, rfl, hmore⟩
    · exact ⟨before, p, rest, rfl, hs⟩
    · cases rest with
      | nil => cases (List.cons.inj hmore).1
      | cons => simp at hmore
  · rintro ⟨before, p, after, rfl, hs⟩
    exact ⟨before, p, after ++ [.resolved], by simp, hs⟩

theorem not_stoppedTimer (hnone : ∀ q, .cancelled q ∉ log) (t : Nat) : ¬StoppedTimer log t := by
  rintro ⟨before, p, after, rfl, -⟩
  exact hnone p (by simp)

/-- **A cancel-timer command is emitted exactly for a started timer that had not
fired.** -/
theorem timerBooks_follows (h : Follows Step .new log s) : TimerBooks log s := by
  induction h with
  | nil => simp [TimerBooks]
  | @snoc log m s' e h he ih =>
    cases he with
    | schedule =>
      have hall : ∀ e ∈ log, e = .resolved := ih
      have hnot (e : LocalEvent) (he : e ≠ .resolved) : e ∉ log := fun hmem => he (hall e hmem)
      simp [TimerBooks, hnot]
    | accept | request | retry =>
      simpa [TimerBooks] using ih
    | @start a n t hlt =>
      obtain ⟨hcancel, hcancelled, hle, hopen⟩ := ih
      refine ⟨by simpa using hcancel, by simpa using hcancelled, fun u hu => ?_, fun u => ?_⟩
      · simp only [List.mem_append, List.mem_singleton, LocalEvent.timerStarted.injEq, reduceCtorEq,
          or_false] at hu
        rcases hu with (hu | rfl) | hu
        · exact Nat.le_of_lt (Nat.lt_of_le_of_lt (hle u (.inl hu)) hlt)
        · exact Nat.le_refl u
        · exact Nat.le_of_lt (Nat.lt_of_le_of_lt (hle u (.inr hu)) hlt)
      · -- No earlier timer is open, and timer `t` is new.
        have hold : ¬(.timerStarted u ∈ log ∧ .timerFired u ∉ log) := by simp [hopen]
        have hnew : .timerFired t ∉ log := fun hf => Nat.not_le_of_lt hlt (hle t (.inr hf))
        by_cases hut : u = t
        · subst hut
          simp [hnew]
        · have : .timerStarted u ∈ log → .timerFired u ∈ log := fun hs =>
            by_contra fun hf => hold ⟨hs, hf⟩
          simpa [hut, Ne.symm hut] using this
    | @fire a n t =>
      obtain ⟨hcancel, hcancelled, hle, hopen⟩ := ih
      have hstarted := (hopen t).mpr rfl
      refine ⟨by simpa using hcancel, by simpa using hcancelled, fun u hu => ?_, fun u => ?_⟩
      · simp only [List.mem_append, List.mem_singleton, LocalEvent.timerFired.injEq, reduceCtorEq,
          or_false] at hu
        rcases hu with hu | hu | rfl
        · exact hle u (.inl hu)
        · exact hle u (.inr hu)
        · exact hle u (.inl hstarted.1)
      · have := (hopen u).mp
        simp only [List.mem_append, List.mem_singleton, reduceCtorEq, or_false,
          LocalEvent.timerFired.injEq, not_or, iff_false, not_and, not_not]
        intro hs hf
        exact (Backoff.timer.inj (this ⟨hs, hf⟩)).symm
    | @stop a n t =>
      obtain ⟨hcancel, hcancelled, hle, hopen⟩ := ih
      refine ⟨by simp [hcancel], by simpa using hcancelled, fun u => ?_⟩
      have := hopen u
      simpa [eq_comm] using this
    | @leaveTimer t =>
      obtain ⟨hcancel, hcancelled, hopen⟩ := ih
      intro u
      rw [stoppedTimer_snoc hcancelled, hopen, List.mem_append, hcancel]
      simp
    | @leave a n p hp =>
      obtain ⟨hcancel, hcancelled, hle, hopen⟩ := ih
      intro u
      rw [stoppedTimer_snoc hcancelled, hopen]
      simp [hcancel, hp]
    | resolve hne =>
      intro u
      rw [stoppedTimer_resolved]
      cases m with
      | new =>
        have hall : ∀ e ∈ log, e = .resolved := ih
        have hnot (e : LocalEvent) (he : e ≠ .resolved) : e ∉ log := fun hmem => he (hall e hmem)
        simp [hnot, not_stoppedTimer]
      | live a p n =>
        obtain ⟨hcancel, hcancelled, -⟩ := ih
        simp [hcancel, not_stoppedTimer hcancelled]
      | stopping t => exact absurd rfl (hne t)
      | leaving | gone => simpa using ih u

end Protocol

/-! ### The context follows the protocol -/

theorem localLog_append (seq : Nat) (log more : List ContextEvent) :
    localLog seq (log ++ more) = localLog seq log ++ localLog seq more :=
  List.filterMap_append

/-- The log of an event that means something for activity `seq` alone. -/
theorem localLog_cons {seq : Nat} {e : ContextEvent} {event : LocalEvent}
    {es : List ContextEvent} {events : List LocalEvent}
    (he : ∀ n, localEvent n e = if seq = n then some event else none)
    (hes : ∀ n, localLog n es = if n = seq then events else []) (n : Nat) :
    localLog n (e :: es) = if n = seq then event :: events else [] := by
  have htail := hes n
  by_cases hn : n = seq
  · subst hn
    rw [if_pos rfl] at htail ⊢
    rw [localLog, List.filterMap_cons, he, if_pos rfl]
    exact congrArg _ htail
  · rw [if_neg hn] at htail ⊢
    rw [localLog, List.filterMap_cons, he, if_neg (Ne.symm hn)]
    exact htail

theorem localLog_one {seq : Nat} {e : ContextEvent} {event : LocalEvent}
    (he : ∀ n, localEvent n e = if seq = n then some event else none) (n : Nat) :
    localLog n [e] = if n = seq then [event] else [] :=
  localLog_cons he (fun _ => (ite_self _).symm) n

namespace Context

/-- The protocol state of local activity `seq` agrees with the table. -/
def Agrees (c : Context P) (seq : Nat) (st : LocalState) : Prop :=
  match c.localActivities seq with
  | some la => ∃ n, st = .live la.attempt la.backoff n ∧ n ≤ c.nextSequence
  | none => st = .new ∨ st = .gone

variable {c : Context P} {seq : Nat}

theorem Agrees.of_some {st : LocalState} {la : LocalActivity} (h : c.Agrees seq st)
    (hla : c.localActivities seq = some la) :
    ∃ n, st = .live la.attempt la.backoff n ∧ n ≤ c.nextSequence := by
  unfold Agrees at h
  rwa [hla] at h

theorem agrees_some {n : Nat} (la : LocalActivity) (hla : c.localActivities seq = some la)
    (hn : n ≤ c.nextSequence) : c.Agrees seq (.live la.attempt la.backoff n) := by
  unfold Agrees
  rw [hla]
  exact ⟨n, rfl, hn⟩

theorem agrees_gone (hla : c.localActivities seq = none) : c.Agrees seq .gone := by
  unfold Agrees
  rw [hla]
  exact .inr rfl

theorem Agrees.mono {c' : Context P} {st : LocalState} (h : c.Agrees seq st)
    (hla : c'.localActivities seq = c.localActivities seq)
    (hn : c.nextSequence ≤ c'.nextSequence) : c'.Agrees seq st := by
  unfold Agrees at h ⊢
  rw [hla]
  split at h
  · obtain ⟨n, hst, hle⟩ := h
    exact ⟨n, hst, Nat.le_trans hle hn⟩
  · exact h

/-- A state that agrees with the table allows the resolver to run. -/
theorem Agrees.resolve {st : LocalState} (h : c.Agrees seq st) :
    LocalState.Step st .resolved .gone := by
  refine .resolve fun t ht => ?_
  unfold Agrees at h
  split at h
  · obtain ⟨n, rfl, -⟩ := h
    cases ht
  · rcases h with rfl | rfl <;> cases ht

structure Followed (c : Context P) : Prop where
  follows : ∀ seq, ∃ st, Follows LocalState.Step .new (localLog seq c.trace) st ∧ c.Agrees seq st
  fresh : ∀ seq, c.nextSequence < seq → localLog seq c.trace = []

namespace Followed

variable {c c' : Context P}

theorem update (h : Followed c) (seq : Nat) {es : List ContextEvent} {events : List LocalEvent}
    (hes : ∀ n, localLog n es = if n = seq then events else [])
    (htrace : c'.trace = c.trace ++ es) (hn : c.nextSequence ≤ c'.nextSequence)
    (hle : seq ≤ c'.nextSequence)
    (hother : ∀ n, n ≠ seq → c'.localActivities n = c.localActivities n)
    (hseq : ∀ st, Follows LocalState.Step .new (localLog seq c.trace) st → c.Agrees seq st →
      ∃ st', Follows LocalState.Step st events st' ∧ c'.Agrees seq st') : Followed c' := by
  refine ⟨fun n => ?_, fun n hlt => ?_⟩
  · obtain ⟨st, hfollows, hst⟩ := h.follows n
    rw [htrace, localLog_append, hes]
    by_cases hns : n = seq
    · subst hns
      rw [if_pos rfl]
      obtain ⟨st', hes, hst'⟩ := hseq st hfollows hst
      exact ⟨st', hfollows.append hes, hst'⟩
    · rw [if_neg hns, List.append_nil]
      exact ⟨st, hfollows, hst.mono (hother n hns) hn⟩
  · have hns : n ≠ seq := fun heq => Nat.not_le_of_lt hlt (heq ▸ hle)
    rw [htrace, localLog_append, hes, if_neg hns, List.append_nil]
    exact h.fresh n (Nat.lt_of_le_of_lt hn hlt)

theorem updateLocal (h : Followed c) {seq : Nat} {la : LocalActivity} {es : List ContextEvent}
    {events : List LocalEvent} (hla : c.localActivities seq = some la)
    (hle : seq ≤ c.nextSequence) (hes : ∀ n, localLog n es = if n = seq then events else [])
    (htrace : c'.trace = c.trace ++ es) (hn : c.nextSequence ≤ c'.nextSequence)
    (hother : ∀ n, n ≠ seq → c'.localActivities n = c.localActivities n)
    (hseq : ∀ n, n ≤ c.nextSequence → ∃ st',
      Follows LocalState.Step (.live la.attempt la.backoff n) events st' ∧ c'.Agrees seq st') :
    Followed c' := by
  refine h.update seq hes htrace hn (Nat.le_trans hle hn) hother fun st _ hst => ?_
  obtain ⟨n, rfl, hle⟩ := hst.of_some hla
  exact hseq n hle

theorem frame (h : Followed c) (es : List ContextEvent) (htrace : c'.trace = c.trace ++ es)
    (hes : ∀ n, localLog n es = []) (hla : c'.localActivities = c.localActivities)
    (hn : c.nextSequence ≤ c'.nextSequence) : Followed c' := by
  refine h.update 0 (fun n => (hes n).trans (ite_self _).symm) htrace hn (Nat.zero_le _)
    (fun n _ => congrFun hla n) fun st _ hst => ?_
  exact ⟨st, .nil, hst.mono (congrFun hla 0) hn⟩

theorem emit (h : Followed c) (command : Command) (owner : Option Nat)
    (hes : ∀ n, localEvent n (.emitted command owner) = none) :
    Followed (c.emit command owner) := by
  by_cases htake : c.takes command = true
  · exact h.frame [.emitted command owner] (by simp [Context.emit, htake])
      (fun n => by simp [localLog, hes n]) rfl (Nat.le_refl _)
  · exact h.frame [] (by simp [Context.emit, htake]) (fun _ => rfl) rfl (Nat.le_refl _)

/-- The resolver of an operation that is no longer a local activity afterwards. -/
theorem resolve (h : Followed c) (seq : Nat) {es : List ContextEvent}
    (htrace : c'.trace = c.trace ++ es) (hn : c'.nextSequence = c.nextSequence)
    (hle : seq ≤ c.nextSequence) (hes : ∀ n, localLog n es = if n = seq then [.resolved] else [])
    (hother : ∀ n, n ≠ seq → c'.localActivities n = c.localActivities n)
    (hnone : c'.localActivities seq = none) : Followed c' := by
  refine h.update seq hes htrace (Nat.le_of_eq hn.symm) (hn ▸ hle) hother fun st _ hst => ?_
  exact ⟨.gone, .snoc .nil hst.resolve, agrees_gone hnone⟩

end Followed

/-- What the handles of activities say. A pending activity has a local entry exactly if
its handle says so, a handle belongs to a number that was given out, and an activity whose
cancellation was requested is in no backoff. -/
structure LocalHandles (c : Context P) : Prop where
  isLocal : ∀ seq handle, (c.activities seq).isSome = true → c.activityHandles seq = some handle →
    handle.isLocal = (c.localActivities seq).isSome
  known : ∀ seq handle, c.activityHandles seq = some handle → seq ≤ c.nextSequence
  idle : ∀ seq handle la, c.activityHandles seq = some handle →
    handle.cancellationRequested = true → c.localActivities seq = some la → la.backoff = .idle

/-- No local activity has the number of an operation of another kind. -/
theorem Tabled.localActivities_eq_none (h : c.Tabled) {k : Kind} (hk : c.occupied seq k = true)
    (hne : k ≠ .activity) : c.localActivities seq = none := by
  by_contra hsome
  obtain ⟨la, hla⟩ := Option.ne_none_iff_exists'.mp hsome
  exact hne (h.occupied_unique hk (h.phases.activity seq la hla))

theorem Tabled.le_of_occupied (h : c.Tabled) {k : Kind} (hk : c.occupied seq k = true) :
    seq ≤ c.nextSequence := by
  have := h.allocated_of_occupied hk
  rw [h.numbers, List.mem_range'_1] at this
  omega

theorem Tabled.local_le (h : c.Tabled) {la : LocalActivity}
    (hla : c.localActivities seq = some la) :
    seq ≤ c.nextSequence :=
  h.le_of_occupied (k := .activity) (h.phases.activity seq la hla)

theorem emit_trace (hopen : c.isSealed = false) (command : Command) (owner : Option Nat) :
    (c.emit command owner).trace = c.trace ++ [.emitted command owner] := by
  simp [Context.emit, takes, hopen]

namespace Followed

variable {c c' : Context P} {seq : Nat} {la : LocalActivity}

theorem removeTimer (h : Followed c) (ht : c.Tabled) {timer : Timer}
    (hseq : c.timers seq = some timer) : Followed (c.removeTimer seq) := by
  have hocc : c.occupied seq .timer = true := by simp [occupied, hseq]
  exact h.resolve seq rfl rfl (ht.le_of_occupied hocc) (localLog_one fun _ => rfl) (fun _ _ => rfl)
    (ht.localActivities_eq_none hocc (by simp))

theorem removeActivity (h : Followed c) (ht : c.Tabled) {a : Activity P}
    (hseq : c.activities seq = some a) : Followed (c.removeActivity seq) := by
  have hocc : c.occupied seq .activity = true := by simp [occupied, hseq]
  exact h.resolve seq rfl rfl (ht.le_of_occupied hocc) (localLog_one fun _ => rfl)
    (fun n hn => Function.update_of_ne hn ..) (Function.update_self ..)

theorem removeChild (h : Followed c) (ht : c.Tabled) {child : Child P}
    (hseq : c.childWorkflows seq = some child) (es : List ContextEvent)
    (htrace : c'.trace = c.trace ++ es)
    (hes : ∀ n, localLog n es = localLog n [.resolverInvoked seq])
    (hla : c'.localActivities = c.localActivities) (hn : c'.nextSequence = c.nextSequence) :
    Followed c' := by
  have hocc : c.occupied seq .child = true := by simp [occupied, hseq]
  exact h.resolve seq htrace hn (ht.le_of_occupied hocc)
    (fun n => (hes n).trans (localLog_one (fun _ => rfl) n)) (fun n _ => congrFun hla n)
    (hla ▸ ht.localActivities_eq_none hocc (by simp))

theorem scheduleLocalActivity (h : Followed c) (hopen : c.isSealed = false) (f : Nat)
    (decode : Payload → P.Code) (r : ScheduledLocalActivity) :
    Followed ((c.allocateSequence.saveActivity (c.nextSequence + 1) f decode (some r)).emit
      (.scheduleLocalActivity (c.nextSequence + 1) 1 none r)) := by
  have hlog : ∀ n, localLog n [.allocated (c.nextSequence + 1),
      .emitted (.scheduleLocalActivity (c.nextSequence + 1) 1 none r) none] =
        if n = c.nextSequence + 1 then [.scheduled 1] else [] :=
    localLog_one fun _ => rfl
  refine h.update (c.nextSequence + 1) hlog ?_ (Nat.le_succ _) (Nat.le_refl _)
    (fun n hn => Function.update_of_ne hn ..) fun st hst _ => ?_
  · rw [emit_trace (by exact hopen)]
    simp [Context.saveActivity, allocateSequence]
  · -- The number is new, so the protocol is at its start.
    rw [h.fresh _ (Nat.lt_succ_self _)] at hst
    generalize hlog : ([] : List LocalEvent) = log at hst
    cases hst with
    | snoc => simp at hlog
    | nil =>
      exact ⟨_, .cons .schedule .nil,
        agrees_some ⟨r, 1, none, .idle⟩ (Function.update_self ..) (Nat.zero_le _)⟩

/-- A cancellation leaves the retry phase and resolves the activity. -/
theorem cancelBackoff (h : Followed c) (hopen : c.isSealed = false)
    (hla : c.localActivities seq = some la) (hle : seq ≤ c.nextSequence) :
    Followed ((c.leaveBackoff seq la).removeActivity seq) := by
  have hn := Nat.le_of_eq (leaveBackoff_nextSequence c seq la).symm
  have hother : ∀ n, n ≠ seq →
      ((c.leaveBackoff seq la).removeActivity seq).localActivities n = c.localActivities n := by
    intro n hns
    simp [Context.removeActivity, leaveBackoff_localActivities, hns]
  have hresolved := localLog_one (e := .resolverInvoked seq) fun _ => rfl
  cases hb : la.backoff with
  | timer t =>
    refine h.updateLocal hla hle
      (localLog_cons (e := .emitted (.cancelTimer t) (some seq)) (fun _ => rfl)
        (localLog_cons (e := .backoffCancelled seq (.timer t)) (fun _ => rfl) hresolved))
      ?_ hn hother fun n _ => ⟨.gone, ?_, agrees_gone (Function.update_self ..)⟩
    · simp [Context.removeActivity, leaveBackoff, hb, Context.emit, takes, hopen]
    · rw [hb]
      exact .cons .stop (.cons .leaveTimer (.cons (.resolve (by simp)) .nil))
  | idle | timerQueued | retryQueued =>
    refine h.updateLocal hla hle
      (localLog_cons (e := .backoffCancelled seq la.backoff) (fun _ => rfl) hresolved)
      ?_ hn hother fun n _ => ⟨.gone, ?_, agrees_gone (Function.update_self ..)⟩
    · simp [Context.removeActivity, leaveBackoff, hb]
    · exact .cons (.leave (by simp [hb])) (.cons (.resolve (by simp)) .nil)

/-- What operations and jobs do to a context that is not sealed. -/
theorem act (h : Followed c) (ht : c.Tabled) (hh : c.LocalHandles) (hopen : c.isSealed = false)
    (hact : Act c c') : Followed c' := by
  have hrefl := Nat.le_refl c.nextSequence
  have hsucc := Nat.le_succ c.nextSequence
  have hreserved {c'' : Context P} (htrace : c''.trace = c.allocateSequence.trace)
      (hla : c''.localActivities = c.localActivities)
      (hn : c''.nextSequence = c.nextSequence + 1) : Followed c'' :=
    h.frame [.allocated (c.nextSequence + 1)] htrace (fun _ => rfl) hla (hn ▸ hsucc)
  have hsame {c'' : Context P} (htrace : c''.trace = c.trace)
      (hla : c''.localActivities = c.localActivities)
      (hn : c''.nextSequence = c.nextSequence) : Followed c'' :=
    h.frame [] (htrace.trans (List.append_nil _).symm) (fun _ => rfl) hla (Nat.le_of_eq hn.symm)
  cases hact with
  | allocate => exact hreserved rfl rfl rfl
  | startTimer | scheduleActivity | startChild =>
    refine .emit ?_ _ _ fun _ => rfl
    exact hreserved rfl rfl rfl
  | scheduleLocalActivity f decode r => exact h.scheduleLocalActivity hopen f decode r
  | startExternal operation f command hc =>
    refine .emit ?_ _ _ fun _ => ?_
    · exact hreserved rfl rfl rfl
    · cases command <;> first | rfl | cases hc
  | cancelTimer _ _ hseq => exact (h.removeTimer ht hseq).emit _ _ fun _ => rfl
  | fireSleep hseq => exact h.removeTimer ht hseq
  | fireStale hseq => exact h.removeTimer ht hseq
  | removeActivity hseq => exact h.removeActivity ht hseq
  | @requestCancel seq handle a hhandle hn hseq hidle =>
    cases hl : handle.isLocal with
    | false =>
      rw [if_neg Bool.false_ne_true]
      refine .emit ?_ _ _ fun _ => rfl
      exact hsame rfl rfl rfl
    | true =>
      rw [if_pos rfl]
      -- The handle is local, so the activity is, and it is not in a backoff.
      have hsome := (hh.isLocal seq handle (by rw [hseq]; rfl) hhandle).symm.trans hl
      obtain ⟨la, hla⟩ := Option.isSome_iff_exists.mp hsome
      exact h.updateLocal hla (ht.local_le hla) (localLog_one fun _ => rfl)
        (emit_trace hopen ..) hrefl
        (fun _ _ => rfl) fun n hle =>
          ⟨_, hidle la hla ▸ .cons .request .nil, agrees_some la hla hle⟩
  | @cancelBackoff seq handle la a _ hla =>
    have hmarked : Followed (c.markCancelled seq handle) := hsame rfl rfl rfl
    exact hmarked.cancelBackoff hopen hla (ht.local_le hla)
  | @leaveBackoff seq la hla hseq =>
    have := ht.phases.activity seq la hla
    rw [hseq] at this
    cases this
  | cancelChild reason handle =>
    exact (h.emit (.cancelChildWorkflow _ reason) none fun _ => rfl).frame []
      (List.append_nil _).symm (fun _ => rfl) rfl hrefl
  | @acknowledgeStart seq =>
    exact h.frame [.startResolverInvoked seq] rfl (fun _ => rfl) rfl hrefl
  | @failUnstarted seq child hseq =>
    exact h.removeChild ht hseq [.startResolverInvoked seq, .resolverInvoked seq]
      (by simp [markChildTerminal, Context.removeUnstarted]) (fun _ => rfl) rfl rfl
  | @removeUnstarted seq =>
    exact h.frame [.startResolverInvoked seq] rfl (fun _ => rfl) rfl hrefl
  | @resolveStarted seq child hseq =>
    exact h.removeChild ht hseq [.resolverInvoked _] rfl (fun _ => rfl) rfl rfl
  | @removeExternal seq e hseq =>
    have hocc : c.occupied seq .external = true := by simp [occupied, hseq]
    exact h.resolve seq rfl rfl (ht.le_of_occupied hocc) (localLog_one fun _ => rfl)
      (fun _ _ => rfl) (ht.localActivities_eq_none hocc (by simp))
  | emit command hc =>
    refine h.emit _ _ fun _ => ?_
    cases command <;> first | rfl | cases hc
  | misc => exact hsame rfl rfl rfl

theorem patch (h : Followed c) (hpatch : Patch c c') : Followed c' := by
  obtain ⟨patches, markers, rfl, hmarkers⟩ := hpatch.frame
  refine h.frame (markers.map (.emitted · none)) rfl (fun n => ?_) rfl (Nat.le_refl _)
  rcases hmarkers with rfl | ⟨-, patchId, deprecated, rfl⟩ <;> rfl

theorem acceptBackoff (h : Followed c) (ht : c.Tabled) (hla : c.localActivities seq = some la)
    (hidle : la.backoff = .idle) : Followed (c.acceptBackoff seq la) :=
  h.updateLocal hla (ht.local_le hla) (localLog_one fun _ => rfl) rfl (Nat.le_refl _)
    (fun _ hn => Function.update_of_ne hn ..) fun _ hn =>
    ⟨_, hidle ▸ .cons .accept .nil,
      agrees_some { la with backoff := .timerQueued } (Function.update_self ..) hn⟩

theorem beginBackoffTimer (h : Followed c) (ht : c.Tabled) (hopen : c.isSealed = false)
    (hla : c.localActivities seq = some la) (hqueued : la.backoff = .timerQueued)
    (attempt ms : Int) (time : Option Timestamp) :
    Followed (c.beginBackoffTimer seq la attempt ms time) := by
  have hlog : ∀ n, localLog n [.allocated (c.nextSequence + 1),
      .emitted (.startTimer (c.nextSequence + 1) ms) (some seq)] =
        if n = seq then [.timerStarted (c.nextSequence + 1)] else [] :=
    localLog_one fun _ => rfl
  refine h.updateLocal hla (ht.local_le hla) hlog ?_ (Nat.le_succ _)
    (fun n hn => Function.update_of_ne hn ..)
    fun n hn => ⟨_, hqueued ▸ .cons (.start (Nat.lt_succ_of_le hn)) .nil,
      agrees_some { la with backoff := .timer (c.nextSequence + 1) } (Function.update_self ..)
        (Nat.le_refl _)⟩
  rw [Context.beginBackoffTimer, emit_trace (by exact hopen)]
  simp [allocateSequence]

theorem fireBackoff (h : Followed c) (ht : c.Tabled) {t u : Nat} {attempt : Int}
    {time : Option Timestamp} (htimer : c.timers t = some (.backoff seq attempt time))
    (hla : c.localActivities seq = some la) (hu : la.backoff = .timer u) :
    Followed ((c.removeTimer t).queueRetry t seq la) := by
  obtain rfl := ht.phases.target_eq htimer hla hu
  exact (h.removeTimer ht htimer).updateLocal hla (ht.local_le hla) (localLog_one fun _ => rfl)
    rfl (Nat.le_refl _) (fun n hn => Function.update_of_ne hn ..) fun n hn =>
    ⟨_, hu ▸ .cons .fire .nil,
      agrees_some { la with backoff := .retryQueued } (Function.update_self ..) hn⟩

theorem scheduleRetry (h : Followed c) (ht : c.Tabled) (hopen : c.isSealed = false)
    (hla : c.localActivities seq = some la) (hqueued : la.backoff = .retryQueued) {attempt : Int}
    (hlater : la.attempt < attempt) (time : Option Timestamp) :
    Followed (c.scheduleRetry seq la attempt time) :=
  h.updateLocal hla (ht.local_le hla) (localLog_one fun _ => rfl) (emit_trace hopen ..)
    (Nat.le_refl _) (fun _ hn => Function.update_of_ne hn ..) fun _ hn =>
    ⟨_, hqueued ▸ .cons (.retry hlater) .nil,
      agrees_some { la with backoff := .idle, attempt, originalScheduleTime := time }
        (Function.update_self ..) hn⟩

end Followed

namespace LocalHandles

variable {c c' : Context P} {seq : Nat}

/-- The tables and handles of other activities stay as they are. -/
theorem update (h : LocalHandles c) (seq : Nat) (hn : c.nextSequence ≤ c'.nextSequence)
    (hle : seq ≤ c'.nextSequence)
    (hother : ∀ n, n ≠ seq → c'.activities n = c.activities n ∧
      c'.activityHandles n = c.activityHandles n ∧ c'.localActivities n = c.localActivities n)
    (hlocal : ∀ handle, (c'.activities seq).isSome = true → c'.activityHandles seq = some handle →
      handle.isLocal = (c'.localActivities seq).isSome)
    (hidle : ∀ handle la, c'.activityHandles seq = some handle → handle.cancellationRequested =
      true → c'.localActivities seq = some la → la.backoff = .idle) :
    LocalHandles c' := by
  refine ⟨fun n handle hs hhandle => ?_, fun n handle hhandle => ?_,
    fun n handle la hhandle hreq hla => ?_⟩ <;>
    by_cases hns : n = seq
  · subst hns
    exact hlocal handle hs hhandle
  · obtain ⟨ha, hh, hla⟩ := hother n hns
    rw [hla]
    exact h.isLocal n handle (ha ▸ hs) (hh ▸ hhandle)
  · exact hns ▸ hle
  · exact Nat.le_trans (h.known n handle ((hother n hns).2.1 ▸ hhandle)) hn
  · subst hns
    exact hidle handle la hhandle hreq hla
  · obtain ⟨-, hh, hla'⟩ := hother n hns
    exact h.idle n handle la (hh ▸ hhandle) hreq (hla' ▸ hla)

theorem saveActivity (h : LocalHandles c) (ht : c.Tabled) (f : Nat) (decode : Payload → P.Code)
    (request : Option ScheduledLocalActivity) :
    LocalHandles (c.allocateSequence.saveActivity (c.nextSequence + 1) f decode request) := by
  have hnone : c.localActivities (c.nextSequence + 1) = none := by
    by_contra hsome
    obtain ⟨la, hla⟩ := Option.ne_none_iff_exists'.mp hsome
    exact Nat.not_succ_le_self _ (ht.local_le hla)
  refine h.update (c.nextSequence + 1) (Nat.le_succ _) (Nat.le_refl _) (fun n hn => ?_)
    (fun handle _ hhandle => ?_) fun handle la hhandle hreq _ => ?_
  · cases request <;> simp [Context.saveActivity, allocateSequence, hn]
  · have hhandle : Function.update c.activityHandles _ _ _ = some handle := hhandle
    rw [Function.update_self] at hhandle
    cases hhandle
    cases request <;> simp [Context.saveActivity, allocateSequence, hnone]
  · have hhandle : Function.update c.activityHandles _ _ _ = some handle := hhandle
    rw [Function.update_self] at hhandle
    cases hhandle
    cases hreq

theorem markCancelled (h : LocalHandles c) {handle : ActivityHandle}
    (hh : c.activityHandles seq = some handle)
    (hidle : ∀ la, c.localActivities seq = some la → la.backoff = .idle) :
    LocalHandles (c.markCancelled seq handle) := by
  refine h.update seq (Nat.le_refl _) (h.known seq handle hh)
    (fun n hn => ⟨rfl, Function.update_of_ne hn .., rfl⟩) (fun handle' hs hhandle => ?_)
    fun _ la _ _ hla => hidle la hla
  have hhandle : Function.update c.activityHandles _ _ _ = some handle' := hhandle
  rw [Function.update_self] at hhandle
  cases hhandle
  exact h.isLocal seq handle hs hh

theorem drop (h : LocalHandles c) (seq : Nat)
    (ha : c'.activities = Function.update c.activities seq none)
    (hla : c'.localActivities = Function.update c.localActivities seq none)
    (hh : ∀ n, n ≠ seq → c'.activityHandles n = c.activityHandles n)
    (hn : c'.nextSequence = c.nextSequence) (hle : seq ≤ c.nextSequence) : LocalHandles c' := by
  refine h.update seq (Nat.le_of_eq hn.symm) (hn ▸ hle)
    (fun n hns => ⟨by rw [ha, Function.update_of_ne hns], hh n hns,
      by rw [hla, Function.update_of_ne hns]⟩) (fun handle hs => ?_) fun handle la _ _ hla' => ?_
  · rw [ha, Function.update_self] at hs
    cases hs
  · rw [hla, Function.update_self] at hla'
    cases hla'

theorem setLocal (h : LocalHandles c) (ht : c.Tabled) {la : LocalActivity} (la' : LocalActivity)
    (hla : c.localActivities seq = some la)
    (hidle : ∀ handle, c.activityHandles seq = some handle → handle.cancellationRequested = true →
      la'.backoff = .idle)
    (hla' : c'.localActivities = Function.update c.localActivities seq (some la'))
    (ha : c'.activities = c.activities) (hh : c'.activityHandles = c.activityHandles)
    (hn : c.nextSequence ≤ c'.nextSequence) : LocalHandles c' := by
  refine h.update seq hn (Nat.le_trans (ht.local_le hla) hn)
    (fun n hns => ⟨by rw [ha], by rw [hh], by rw [hla', Function.update_of_ne hns]⟩)
    (fun handle hs hhandle => ?_) fun handle la₁ hhandle hreq hla₁ => ?_
  · rw [hla', Function.update_self, h.isLocal seq handle (ha ▸ hs) (hh ▸ hhandle), hla]
    rfl
  · rw [hla', Function.update_self] at hla₁
    exact Option.some.inj hla₁ ▸ hidle handle (hh ▸ hhandle) hreq

theorem act (h : LocalHandles c) (ht : c.Tabled) (hact : Act c c') : LocalHandles c' := by
  have hsame {c'' : Context P} (ha : c''.activities = c.activities)
      (hh : c''.activityHandles = c.activityHandles)
      (hla : c''.localActivities = c.localActivities) (hn : c.nextSequence ≤ c''.nextSequence) :
      LocalHandles c'' :=
    ⟨ha ▸ hh ▸ hla ▸ h.isLocal, fun n handle hn' => Nat.le_trans (h.known n handle (hh ▸ hn')) hn,
      hh ▸ hla ▸ h.idle⟩
  have hsucc := Nat.le_succ c.nextSequence
  cases hact with
  | scheduleActivity f decode r =>
    obtain ⟨hlocal, hknown, hidle⟩ := h.saveActivity ht f decode none
    exact ⟨hlocal, hknown, hidle⟩
  | scheduleLocalActivity f decode r =>
    obtain ⟨hlocal, hknown, hidle⟩ := h.saveActivity ht f decode (some r)
    exact ⟨hlocal, hknown, hidle⟩
  | allocate | startTimer | startChild | startExternal => exact hsame rfl rfl rfl hsucc
  | @removeActivity seq a hseq =>
    exact h.drop seq rfl rfl (fun n hn => Function.update_of_ne hn ..) rfl
      (ht.le_of_occupied (k := .activity) (by simp [occupied, hseq]))
  | requestCancel hh _ _ hidle =>
    obtain ⟨hlocal, hknown, hidle⟩ := h.markCancelled hh hidle
    exact ⟨hlocal, hknown, hidle⟩
  | @cancelBackoff seq handle la a hh hla hseq =>
    refine h.drop seq ?_ ?_ (fun n hn => ?_) (leaveBackoff_nextSequence _ seq la)
      (ht.local_le hla)
    · simp [Context.removeActivity, Context.markCancelled]
    · simp [Context.removeActivity, leaveBackoff_localActivities, Context.markCancelled]
    · simp [Context.removeActivity, Context.markCancelled, hn]
  | @leaveBackoff seq la hla hseq =>
    have := ht.phases.activity seq la hla
    rw [hseq] at this
    cases this
  | _ => exact hsame rfl rfl rfl (Nat.le_refl _)

theorem change (h : LocalHandles c) (ht : c.Tabled) (hc : Change c c') : LocalHandles c' := by
  have hsame {c'' : Context P} (ha : c''.activities = c.activities)
      (hh : c''.activityHandles = c.activityHandles)
      (hla : c''.localActivities = c.localActivities) (hn : c''.nextSequence = c.nextSequence) :
      LocalHandles c'' :=
    ⟨ha ▸ hh ▸ hla ▸ h.isLocal, hn ▸ hh ▸ h.known, hh ▸ hla ▸ h.idle⟩
  have hidle {seq : Nat} {la : LocalActivity} {handle : ActivityHandle} {p : Backoff}
      (hla : c.localActivities seq = some la) (hp : la.backoff ≠ .idle)
      (hh : c.activityHandles seq = some handle) (hreq : handle.cancellationRequested = true) :
      p = .idle :=
    absurd (h.idle seq handle la hh hreq hla) hp
  cases hc with
  | act hact => exact h.act ht hact
  | patch hpatch =>
    obtain ⟨patches, markers, rfl, -⟩ := hpatch.frame
    exact hsame rfl rfl rfl rfl
  | retry hretry =>
    cases hretry with
    | acceptBackoff hla _ hwanted =>
      refine h.setLocal ht _ hla (fun handle hh hreq => ?_) rfl rfl rfl (Nat.le_refl _)
      rw [hh, Option.any_some, hreq] at hwanted
      cases hwanted
    | startBackoffTimer _ _ _ hla hqueued =>
      exact h.setLocal ht _ hla (fun _ => hidle hla (by simp [hqueued])) rfl rfl rfl (Nat.le_succ _)
    | fireBackoff _ hla hu =>
      exact h.setLocal ht _ hla (fun _ => hidle hla (by simp [hu])) rfl rfl rfl (Nat.le_refl _)
    | retryLocalActivity _ _ hla =>
      exact h.setLocal ht _ hla (fun _ _ _ => rfl) rfl rfl rfl (Nat.le_refl _)
  | clearTables =>
    refine ⟨fun seq handle hs => ?_, h.known, fun seq handle la _ _ hla => ?_⟩
    · cases hs
    · cases hla
  | _ => exact hsame rfl rfl rfl rfl

end LocalHandles

end Context

/-! ### Queued retry work -/

def Thunk.retrySeq : Thunk P → Nat
  | .backoffTimer seq _ _ _ | .backoffRetry seq _ _ => seq
  | _ => 0

/-- A queued retry fits its local activity: it is for the phase the activity is in,
and for a later attempt. -/
def Thunk.Fits (la : LocalActivity) : Thunk P → Prop
  | .backoffTimer _ attempt _ _ => la.backoff = .timerQueued ∧ la.attempt < attempt
  | .backoffRetry _ attempt _ => la.backoff = .retryQueued ∧ la.attempt < attempt
  | _ => True

def retryThunks (queue : List (Nat × Thunk P)) : List (Thunk P) :=
  (queue.map Prod.snd).filter Thunk.isRetry

theorem retryThunks_append (queue more : List (Nat × Thunk P)) :
    retryThunks (queue ++ more) = retryThunks queue ++ retryThunks more := by
  simp [retryThunks]

theorem retryThunks_numbered (n : Nat) (ths : List (Thunk P)) :
    retryThunks (Scheduler.numbered n ths) = ths.filter Thunk.isRetry := by
  induction ths generalizing n with
  | nil => rfl
  | cons th ths ih =>
    have := ih (n + 1)
    simp only [retryThunks, Scheduler.numbered, List.map_cons] at this ⊢
    rw [List.filter_cons, List.filter_cons, this]

theorem retryThunks_enqueueAll (s : Scheduler P) {ths : List (Thunk P)}
    (h : ths.filter Thunk.isRetry = []) :
    retryThunks (s.enqueueAll ths).queue = retryThunks s.queue := by
  rcases Bool.eq_false_or_eq_true s.active with ha | ha
  · rw [Scheduler.enqueueAll_of_active ha]
    simp [retryThunks_append, retryThunks_numbered, h]
  · rw [Scheduler.enqueueAll_of_inactive ha]

variable {s s' : Scheduler P} {c : Context P}

theorem retryThunks_pop {th : Thunk P} (h : s.pop = some (th, s')) :
    retryThunks s.queue =
      if th.isRetry then th :: retryThunks s'.queue else retryThunks s'.queue := by
  obtain ⟨n, rest, hq, rfl⟩ := Scheduler.pop_eq_some h
  simp only [retryThunks, hq, List.map_cons, List.filter_cons]

theorem retryThunks_pop_sublist {th : Thunk P} (h : s.pop = some (th, s')) :
    (retryThunks s'.queue).Sublist (retryThunks s.queue) := by
  rw [retryThunks_pop h]
  split
  · exact List.sublist_cons_self _ _
  · exact List.Sublist.refl _

/-- No retry is queued by operations and jobs, those of retries apart. -/
theorem Scheduler.Act.retryThunks (h : Act s s') :
    (OcamlTemporal.retryThunks s'.queue).Sublist (OcamlTemporal.retryThunks s.queue) := by
  cases h with
  | enqueue th h =>
    rw [enqueue_eq_enqueueAll, retryThunks_enqueueAll _ (by simp [Thunk.isRetry_of_isPlain h])]
  | promise e isSignal h =>
    obtain ⟨-, -, rfl⟩ := promise_eq_some h
    exact .refl _
  | resolve h =>
    obtain ⟨waiters, observers, -, rfl⟩ := resolve_eq_some h
    rw [retryThunks_enqueueAll]
    · exact .refl _
    · simp [List.filter_eq_nil_iff, Thunk.isRetry]
  | clearToken => exact .refl _
  | recordFailure x =>
    rw [recordFailure_frame]

theorem Scheduler.Link.retryThunks (h : Link s s') :
    (OcamlTemporal.retryThunks s'.queue).Sublist (OcamlTemporal.retryThunks s.queue) := by
  cases h with
  | subscribe f observer =>
    rcases s.subscribe_cases f observer with ⟨_, _, _, heq⟩ | ⟨_, ths, heq, hths⟩
    · rw [heq]
      exact .refl _
    · rw [heq, retryThunks_enqueueAll]
      exact List.filter_eq_nil_iff.mpr fun th hth => by
        obtain ⟨_, _, rfl⟩ := hths th hth
        exact Bool.false_ne_true
  | unsubscribe id =>
    rcases s.unsubscribe_cases id with ⟨heq, _⟩ | ⟨_, _, _, _, _, heq⟩ <;>
      rw [heq] <;> exact .refl _

theorem Scheduler.Tied.retryThunks (h : Tied s s') :
    (OcamlTemporal.retryThunks s'.queue).Sublist (OcamlTemporal.retryThunks s.queue) := by
  cases h with
  | pop h => exact retryThunks_pop_sublist h
  | addWaiter k frame hlive h =>
    rw [addWaiter_of_pending h]
    exact .refl _
  | teardown f h =>
    rcases s.teardown_cases f with ⟨_, _, _, heq⟩ | ⟨_, heq⟩
    · rw [heq]
      exact .refl _
    · rw [heq]
  | delivered u => rw [enqueue_eq_enqueueAll, retryThunks_enqueueAll _ rfl]
  | beginRun | endRun => exact .refl _

/-- Queued retries and pending retry timers fit their local activities, with at most
one queued retry for each. -/
structure Retries (s : State P) : Prop where
  nodup : ((retryThunks s.sched.queue).map Thunk.retrySeq).Nodup
  known : ∀ th ∈ retryThunks s.sched.queue, th.retrySeq ≤ s.ctx.nextSequence
  fits : ∀ th ∈ retryThunks s.sched.queue, ∀ la,
    s.ctx.localActivities th.retrySeq = some la → th.Fits la
  timers : ∀ t seq attempt time, s.ctx.timers t = some (.backoff seq attempt time) → ∀ la,
    s.ctx.localActivities seq = some la → la.attempt < attempt

namespace Retries

/-- Retries are dropped, local activities are added or removed. -/
theorem mono {s s' : State P} (h : Retries s) (ht : s.ctx.Tabled)
    (hq : (retryThunks s'.sched.queue).Sublist (retryThunks s.sched.queue))
    (hla : ∀ seq la, s'.ctx.localActivities seq = some la →
      s.ctx.localActivities seq = some la ∨ s.ctx.nextSequence < seq)
    (htimers : ∀ t seq attempt time, s'.ctx.timers t = some (.backoff seq attempt time) →
      s.ctx.timers t = some (.backoff seq attempt time))
    (hn : s.ctx.nextSequence ≤ s'.ctx.nextSequence) : Retries s' := by
  refine ⟨h.nodup.sublist (hq.map _), fun th hth => ?_, fun th hth la hth' => ?_,
    fun t seq attempt time htimer la hla' => ?_⟩
  · exact Nat.le_trans (h.known th (hq.subset hth)) hn
  · rcases hla _ la hth' with hla | hlt
    · exact h.fits th (hq.subset hth) la hla
    · exact absurd (h.known th (hq.subset hth)) (Nat.not_le_of_lt hlt)
  · have htimer := htimers t seq attempt time htimer
    rcases hla seq la hla' with hla | hlt
    · exact h.timers t seq attempt time htimer la hla
    · exact absurd (ht.phases.target t seq attempt time htimer).1 (Nat.not_le_of_lt hlt)

/-- A local activity in phase `idle` or waiting for its timer has no queued retry. -/
theorem not_queued {s : State P} (h : Retries s) {seq : Nat} {la : LocalActivity}
    (hla : s.ctx.localActivities seq = some la)
    (hphase : la.backoff ≠ .timerQueued ∧ la.backoff ≠ .retryQueued) :
    seq ∉ (retryThunks s.sched.queue).map Thunk.retrySeq := by
  intro hmem
  obtain ⟨th, hth, rfl⟩ := List.mem_map.mp hmem
  have hfits := h.fits th hth la hla
  have hretry : th.isRetry = true := (List.mem_filter.mp hth).2
  cases th with
  | backoffTimer => exact hphase.1 hfits.1
  | backoffRetry => exact hphase.2 hfits.1
  | _ => cases hretry

end Retries

/-- The local activities and retry timers that operations and jobs leave. -/
theorem Context.Act.localActivities {c' : Context P} (h : Act c c') (ht : c.Tabled) :
    (∀ seq la, c'.localActivities seq = some la →
      c.localActivities seq = some la ∨ c.nextSequence < seq) ∧
    (∀ t seq attempt time, c'.timers t = some (.backoff seq attempt time) →
      c.timers t = some (.backoff seq attempt time)) ∧
    c.nextSequence ≤ c'.nextSequence := by
  have hupdate {α : Type} {f : Nat → Option α} {n m : Nat} {x : α}
      (hx : Function.update f n none m = some x) : f m = some x := by
    by_cases hmn : m = n
    · subst hmn
      simp at hx
    · rwa [Function.update_of_ne hmn] at hx
  have hsucc := Nat.le_succ c.nextSequence
  have hrefl := Nat.le_refl c.nextSequence
  cases h with
  | startTimer f ms =>
    refine ⟨fun _ _ => .inl, fun t seq attempt time htimer => ?_, hsucc⟩
    have htimer : Function.update c.timers _ _ t = _ := htimer
    by_cases hn : t = c.nextSequence + 1
    · subst hn
      rw [Function.update_self] at htimer
      cases htimer
    · rwa [Function.update_of_ne hn] at htimer
  | scheduleLocalActivity f decode r =>
    refine ⟨fun seq la hla => ?_, fun _ _ _ _ => id, hsucc⟩
    have hla : Function.update c.localActivities _ _ seq = _ := hla
    by_cases hn : seq = c.nextSequence + 1
    · exact .inr (hn ▸ Nat.lt_succ_self _)
    · exact .inl (by rwa [Function.update_of_ne hn] at hla)
  | allocate | scheduleActivity | startChild | startExternal =>
    exact ⟨fun _ _ => .inl, fun _ _ _ _ => id, hsucc⟩
  | cancelTimer | fireSleep | fireStale =>
    exact ⟨fun _ _ => .inl, fun _ _ _ _ => hupdate, hrefl⟩
  | removeActivity => exact ⟨fun _ _ h => .inl (hupdate h), fun _ _ _ _ => id, hrefl⟩
  | @cancelBackoff seq handle la a hh hla hseq =>
    refine ⟨fun n la' hla' => .inl ?_,
      fun t n attempt time => leaveBackoff_timers (c := c.markCancelled seq handle),
      Nat.le_of_eq (leaveBackoff_nextSequence (c.markCancelled seq handle) seq la).symm⟩
    have hla' : Function.update ((c.markCancelled seq handle).leaveBackoff seq la).localActivities
      seq none n = some la' := hla'
    rw [leaveBackoff_localActivities, Function.update_idem] at hla'
    exact hupdate hla'
  | @leaveBackoff seq la hla hseq =>
    have := ht.phases.activity seq la hla
    rw [hseq] at this
    cases this
  | _ => exact ⟨fun _ _ => .inl, fun _ _ _ _ => id, hrefl⟩

namespace Retries

variable {s s' : State P} {seq : Nat}

/-- One local activity changes, together with the retry that is queued for it. -/
theorem setLocal (h : Retries s) {la' : LocalActivity} (old new : List (Thunk P))
    (hla : s'.ctx.localActivities = Function.update s.ctx.localActivities seq (some la'))
    (hq : retryThunks s'.sched.queue = old ++ new) (hold : old.Sublist (retryThunks s.sched.queue))
    (hseq : seq ∉ old.map Thunk.retrySeq)
    (hnew : new = [] ∨ ∃ th, new = [th] ∧ th.retrySeq = seq ∧ th.Fits la')
    (hle : seq ≤ s'.ctx.nextSequence) (hn : s.ctx.nextSequence ≤ s'.ctx.nextSequence)
    (htimers : ∀ t n attempt time, s'.ctx.timers t = some (.backoff n attempt time) →
      if n = seq then la'.attempt < attempt else s.ctx.timers t = some (.backoff n attempt time)) :
    Retries s' := by
  have hother {n : Nat} {la : LocalActivity} (hns : n ≠ seq)
      (h : s'.ctx.localActivities n = some la) : s.ctx.localActivities n = some la := by
    rwa [hla, Function.update_of_ne hns] at h
  have hself {la : LocalActivity} (h : s'.ctx.localActivities seq = some la) : la' = la := by
    rw [hla, Function.update_self] at h
    exact Option.some.inj h
  have hmem {th : Thunk P} (hth : th ∈ retryThunks s'.sched.queue) :
      th ∈ old ∧ th.retrySeq ≠ seq ∨ th.retrySeq = seq ∧ th.Fits la' := by
    rw [hq] at hth
    rcases List.mem_append.mp hth with hth | hth
    · exact .inl ⟨hth, fun heq => hseq (List.mem_map.mpr ⟨th, hth, heq⟩)⟩
    · rcases hnew with rfl | ⟨th', rfl, hth'⟩
      · cases hth
      · rw [List.mem_singleton.mp hth]
        exact .inr hth'
  refine ⟨?_, fun th hth => ?_, fun th hth la hla' => ?_, fun t n attempt time ht la hla' => ?_⟩
  · rw [hq, List.map_append]
    have holdNodup := h.nodup.sublist (hold.map Thunk.retrySeq)
    rcases hnew with rfl | ⟨th, rfl, rfl, -⟩
    · simpa using holdNodup
    · exact holdNodup.append (List.nodup_singleton _) (by simpa using hseq)
  · rcases hmem hth with ⟨hth, -⟩ | ⟨heq, -⟩
    · exact Nat.le_trans (h.known th (hold.subset hth)) hn
    · exact heq ▸ hle
  · rcases hmem hth with ⟨hth, hne⟩ | ⟨heq, hfits⟩
    · exact h.fits th (hold.subset hth) la (hother hne hla')
    · rw [heq] at hla'
      exact hself hla' ▸ hfits
  · have := htimers t n attempt time ht
    split at this
    · next hns =>
      subst hns
      exact hself hla' ▸ this
    · next hns => exact h.timers t n attempt time this la (hother hns hla')

/-- Queueing a retry; an inactive scheduler drops it. -/
theorem retryThunks_enqueue (s : Scheduler P) {th : Thunk P} (h : th.isRetry = true) :
    retryThunks (s.enqueue th).queue = retryThunks s.queue ++ [th] ∨
      retryThunks (s.enqueue th).queue = retryThunks s.queue ++ [] := by
  rw [Scheduler.enqueue_eq_enqueueAll]
  rcases Bool.eq_false_or_eq_true s.active with ha | ha
  · left
    rw [Scheduler.enqueueAll_of_active ha]
    simp [retryThunks_append, retryThunks_numbered, h]
  · right
    rw [Scheduler.enqueueAll_of_inactive ha, List.append_nil]

theorem setLocal_enqueue (h : Retries s) (ht : s.ctx.Tabled) {la : LocalActivity}
    (la' : LocalActivity) (th : Thunk P) (hla : s.ctx.localActivities seq = some la)
    (hphase : la.backoff ≠ .timerQueued ∧ la.backoff ≠ .retryQueued)
    (hla' : s'.ctx.localActivities = Function.update s.ctx.localActivities seq (some la'))
    (hsched : s'.sched = s.sched.enqueue th) (hretry : th.isRetry = true) (hth : th.retrySeq = seq)
    (hfits : th.Fits la') (hattempt : la'.attempt = la.attempt)
    (hn : s'.ctx.nextSequence = s.ctx.nextSequence)
    (htimers : ∀ t n attempt time, s'.ctx.timers t = some (.backoff n attempt time) →
      s.ctx.timers t = some (.backoff n attempt time)) :
    Retries s' := by
  have hseq := h.not_queued hla hphase
  have htimers' : ∀ t n attempt time, s'.ctx.timers t = some (.backoff n attempt time) →
      if n = seq then la'.attempt < attempt
      else s.ctx.timers t = some (.backoff n attempt time) := by
    intro t n attempt time htimer
    have htimer := htimers t n attempt time htimer
    split
    · next hns =>
      subst hns
      exact hattempt ▸ h.timers t n attempt time htimer la hla
    · exact htimer
  have hle : seq ≤ s'.ctx.nextSequence := hn ▸ ht.local_le hla
  rcases retryThunks_enqueue s.sched hretry with hq | hq
  · exact h.setLocal _ _ hla' (hsched ▸ hq) (List.Sublist.refl _) hseq
      (.inr ⟨th, rfl, hth, hfits⟩) hle
      (Nat.le_of_eq hn.symm) htimers'
  · exact h.setLocal _ _ hla' (hsched ▸ hq) (List.Sublist.refl _) hseq (.inl rfl) hle
      (Nat.le_of_eq hn.symm) htimers'

theorem setLocal_pop (h : Retries s) (ht : s.ctx.Tabled) {la : LocalActivity} (la' : LocalActivity)
    {th : Thunk P} {sched : Scheduler P} (hla : s.ctx.localActivities seq = some la)
    (hpop : s.sched.pop = some (th, sched)) (hretry : th.isRetry = true) (hth : th.retrySeq = seq)
    (hla' : s'.ctx.localActivities = Function.update s.ctx.localActivities seq (some la'))
    (hsched : s'.sched = sched) (hn : s.ctx.nextSequence ≤ s'.ctx.nextSequence)
    (htimers : ∀ t n attempt time, s'.ctx.timers t = some (.backoff n attempt time) →
      if n = seq then la'.attempt < attempt else s.ctx.timers t = some (.backoff n attempt time)) :
    Retries s' := by
  have hq := retryThunks_pop hpop
  rw [if_pos hretry] at hq
  have hnodup := h.nodup
  rw [hq, List.map_cons, List.nodup_cons, hth] at hnodup
  refine h.setLocal (retryThunks sched.queue) [] hla' ?_
    (hq ▸ List.sublist_cons_self _ _) hnodup.1 (.inl rfl)
    (Nat.le_trans (ht.local_le hla) hn) hn htimers
  rw [hsched, List.append_nil]

/-- The work at the front of the queue is for a later attempt. -/
theorem fits_of_pop (h : Retries s) {la : LocalActivity} {th : Thunk P} {sched : Scheduler P}
    (hpop : s.sched.pop = some (th, sched)) (hretry : th.isRetry = true)
    (hla : s.ctx.localActivities th.retrySeq = some la) : th.Fits la := by
  refine h.fits th ?_ la hla
  rw [retryThunks_pop hpop, if_pos hretry]
  exact List.mem_cons_self

theorem act (h : Retries s) (ht : s.ctx.Tabled) (hact : State.Act s s') : Retries s' := by
  have hrefl : (retryThunks s.sched.queue).Sublist (retryThunks s.sched.queue) := .refl _
  cases hact with
  | sched hsched =>
    exact h.mono ht hsched.retryThunks (fun _ _ => .inl) (fun _ _ _ _ => id) (Nat.le_refl _)
  | ctx hctx =>
    obtain ⟨hla, htimers, hn⟩ := hctx.localActivities ht
    exact h.mono ht hrefl hla htimers hn
  | @acceptBackoff seq la attempt ms time hla hidle hattempt =>
    exact h.setLocal_enqueue ht { la with backoff := .timerQueued }
      (.backoffTimer seq attempt ms time) hla (by simp [hidle]) rfl rfl rfl rfl
      ⟨rfl, hattempt⟩ rfl rfl fun _ _ _ _ => id
  | other => exact h.mono ht hrefl (fun _ _ => .inl) (fun _ _ _ _ => id) (Nat.le_refl _)

theorem fired {t : Nat} (h : Retries s) (ht : s.ctx.Tabled) (hfired : State.Fired t s s') :
    Retries s' := by
  cases hfired with
  | @retry seq u attempt time la htimer hla hu =>
    refine h.setLocal_enqueue ht { la with backoff := .retryQueued }
      (.backoffRetry seq attempt time) hla (by simp [hu]) rfl rfl rfl rfl
      ⟨rfl, h.timers t seq attempt time htimer la hla⟩ rfl rfl fun v n a₁ t₁ hv => ?_
    have hv : Function.update s.ctx.timers _ _ v = _ := hv
    by_cases hvt : v = t
    · subst hvt
      simp at hv
    · rwa [Function.update_of_ne hvt] at hv

theorem retried (h : Retries s) (ht : s.ctx.Tabled) (hretried : State.Retried s s') :
    Retries s' := by
  cases hretried with
  | @startBackoffTimer sched seq attempt ms time la hpop hla =>
    refine h.setLocal_pop ht { la with backoff := .timer (s.ctx.nextSequence + 1) } hla
      hpop rfl rfl rfl rfl (Nat.le_succ _) fun t n a₁ t₁ htimer => ?_
    replace htimer : Function.update s.ctx.timers _ _ t = _ := htimer
    rw [Function.update_apply] at htimer
    split at htimer
    · cases htimer
      rw [if_pos rfl]
      exact (h.fits_of_pop hpop rfl hla).2
    · split
      · next hns =>
        subst hns
        exact h.timers t n a₁ t₁ htimer la hla
      · exact htimer
  | @retryLocalActivity sched seq attempt time la hpop hla hqueued =>
    refine h.setLocal_pop ht
      { la with backoff := .idle, attempt, originalScheduleTime := time } hla
      hpop rfl rfl rfl rfl (Nat.le_refl _) fun t n a₁ t₁ htimer => ?_
    split
    · next hns =>
      -- The activity was not waiting for a timer.
      subst hns
      have := (ht.phases.timer n la t hla).mpr ⟨a₁, t₁, htimer⟩
      rw [hqueued] at this
      cases this
    · exact htimer
  | left hpop =>
    exact h.mono ht (retryThunks_pop_sublist hpop) (fun _ _ => .inl) (fun _ _ _ _ => id)
      (Nat.le_refl _)

theorem move {fires : Nat → Prop} (h : Retries s) (ht : s.ctx.Tabled)
    (hmove : State.Move fires s s') : Retries s' := by
  have hsame {s'' : State P} (hq : s''.sched.queue = s.sched.queue)
      (hla : s''.ctx.localActivities = s.ctx.localActivities)
      (htimers : s''.ctx.timers = s.ctx.timers)
      (hn : s''.ctx.nextSequence = s.ctx.nextSequence) : Retries s'' :=
    h.mono ht (hq ▸ List.Sublist.refl _) (fun _ _ h => .inl (hla ▸ h))
      (fun _ _ _ _ h => htimers ▸ h)
      (Nat.le_of_eq hn.symm)
  cases hmove with
  | change hchange =>
    cases hchange with
    | act hact => exact h.act ht hact
    | terminate command hc aborted => cases aborted <;> exact hsame rfl rfl rfl rfl
    | clearTables =>
      refine h.mono ht (List.Sublist.refl _) (fun _ _ hla => ?_) (fun _ _ _ _ ht => ?_)
        (Nat.le_refl _)
      · cases hla
      · cases ht
    | _ => exact hsame rfl rfl rfl rfl
  | answer h => cases h <;> exact hsame rfl rfl rfl rfl
  | accept => exact hsame rfl rfl rfl rfl
  | @ended e hend =>
    have hshut : Retries e.contextShutdown.2 := by
      unfold State.contextShutdown
      dsimp only
      split <;> cases hend <;> exact hsame rfl rfl rfl rfl
    exact hshut
  | own hown =>
    cases hown with
    | link hlink =>
      exact h.mono ht hlink.retryThunks (fun _ _ => .inl) (fun _ _ _ _ => id) (Nat.le_refl _)
    | patch hpatch =>
      obtain ⟨patches, markers, rfl, -⟩ := hpatch.frame
      exact hsame rfl rfl rfl rfl
    | refused => exact h
  | fired _ hfired => exact h.fired ht hfired
  | retried hretried => exact h.retried ht hretried
  | tied htied =>
    exact h.mono ht htied.retryThunks (fun _ _ => .inl) (fun _ _ _ _ => id) (Nat.le_refl _)

end Retries

/-! ### Whole runs -/

/-- What every state knows about its local activities; the protocol only as long as
commands are taken. -/
structure Localized (s : State P) : Prop where
  tabled : s.ctx.Tabled
  handles : s.ctx.LocalHandles
  retries : Retries s
  followed : s.ctx.isSealed = false → s.ctx.Followed

namespace Localized

variable {s s' : State P}

theorem act_followed (h : Localized s) (hopen : s.ctx.isSealed = false) (hact : State.Act s s') :
    s'.ctx.Followed := by
  have hf := h.followed hopen
  cases hact with
  | ctx hctx => exact hf.act h.tabled h.handles hopen hctx
  | acceptBackoff ms time hla hidle => exact hf.acceptBackoff h.tabled hla hidle
  | sched | other => exact hf

theorem retried_followed (h : Localized s) (hopen : s.ctx.isSealed = false)
    (hretried : State.Retried s s') : s'.ctx.Followed := by
  have hf := h.followed hopen
  cases hretried with
  | startBackoffTimer _ hla hqueued =>
    exact hf.beginBackoffTimer h.tabled hopen hla hqueued ..
  | retryLocalActivity hpop hla hqueued =>
    exact hf.scheduleRetry h.tabled hopen hla hqueued (h.retries.fits_of_pop hpop rfl hla).2 _
  | left => exact hf

theorem move_followed {fires : Nat → Prop} (h : Localized s) (hmove : State.Move fires s s')
    (hopen' : s'.ctx.isSealed = false) : s'.ctx.Followed := by
  have hopen : s.ctx.isSealed = false := by
    refine Bool.eq_false_iff.mpr fun hsealed => ?_
    rw [hmove.progress.sealed hsealed] at hopen'
    cases hopen'
  have hf := h.followed hopen
  have hsame (c : Context P) (htrace : c.trace = s.ctx.trace)
      (hla : c.localActivities = s.ctx.localActivities)
      (hn : c.nextSequence = s.ctx.nextSequence) : c.Followed :=
    hf.frame [] (htrace.trans (List.append_nil _).symm) (fun _ => rfl) hla (Nat.le_of_eq hn.symm)
  cases hmove with
  | change hchange =>
    cases hchange with
    | act hact => exact h.act_followed hopen hact
    | terminate => cases hopen'
    | clearTables hsealed =>
      rw [hopen] at hsealed
      cases hsealed
    | _ => exact hsame _ rfl rfl rfl
  | answer h => cases h <;> exact hf.emit _ _ fun _ => rfl
  | accept u =>
    exact .frame (hf.emit (.updateResponse u.protocolInstanceId .accepted) none fun _ => rfl)
      [.updateBody u.protocolInstanceId] rfl (fun _ => rfl) rfl (Nat.le_refl _)
  | ended hend =>
    rw [State.contextShutdown_isSealed] at hopen'
    cases hopen'
  | own hown =>
    cases hown with
    | patch hpatch => exact hf.patch hpatch
    | link | refused => exact hf
  | fired _ hfired =>
    cases hfired with
    | retry htimer hla hu => exact hf.fireBackoff h.tabled htimer hla hu
  | retried hretried => exact h.retried_followed hopen hretried
  | tied => exact hf

theorem move {fires : Nat → Prop} (h : Localized s) (hmove : State.Move fires s s') :
    Localized s' := by
  have hctx : s'.ctx.Tabled ∧ s'.ctx.LocalHandles :=
    invariant_of_changes (I := fun c : Context P => c.Tabled ∧ c.LocalHandles)
      (fun c c' hc hI => ⟨hI.1.change hc, hI.2.change hI.1 hc⟩) hmove.progress.ctx
      ⟨h.tabled, h.handles⟩
  exact ⟨hctx.1, hctx.2, h.retries.move h.tabled hmove, h.move_followed hmove⟩

end Localized

theorem Reachable.localized {c : Config P} (hc : Reachable P c) : Localized c.store := by
  refine hc.move_induction ?_ fun _ _ hmove h => h.move hmove
  refine ⟨Context.tabled_create, ⟨fun _ _ h => ?_, fun _ _ h => ?_, fun _ _ _ h => ?_⟩,
    ⟨List.nodup_nil, ?_, ?_, fun _ _ _ _ h => ?_⟩,
    fun _ => ⟨fun seq => ⟨.new, .nil, .inl rfl⟩, fun _ _ => rfl⟩⟩
  · cases h
  · cases h
  · cases h
  · simp [State.start, Scheduler.create, retryThunks]
  · simp [State.start, Scheduler.create, retryThunks]
  · cases h

/-- In a state that agrees with a table, the log names a cancelled timer exactly if
a cancellation found it open. -/
theorem Context.Agrees.timerCancelled_iff {seq : Nat} {st : LocalState} {log : List LocalEvent}
    (hst : c.Agrees seq st) (h : Follows LocalState.Step .new log st) (t : Nat) :
    .timerCancelled t ∈ log ↔ StoppedTimer log t := by
  have hbooks := timerBooks_follows h
  cases st with
  | new =>
    have hall : ∀ e ∈ log, e = .resolved := hbooks
    have hnot (e : LocalEvent) (he : e ≠ .resolved) : e ∉ log := fun hmem => he (hall e hmem)
    simp [hnot, not_stoppedTimer]
  | live a p n => simp [hbooks.1, not_stoppedTimer hbooks.2.1]
  | gone => exact hbooks t
  | stopping | leaving =>
    unfold Context.Agrees at hst
    split at hst
    · obtain ⟨n, hn, -⟩ := hst
      cases hn
    · rcases hst with hst | hst <;> cases hst

/-- The resolver of an activity runs at most once. -/
theorem Context.Tabled.resolved_le (h : c.Tabled) (seq : Nat) :
    (localLog seq c.trace).count .resolved ≤ 1 := by
  have hevent {e : ContextEvent} (he : localEvent seq e = some .resolved) :
      e = .resolverInvoked seq := by
    unfold localEvent at he
    split at he <;> (try split at he) <;> simp_all
  have hcount : (localLog seq c.trace).count .resolved ≤ (invokedResolvers c.trace).count seq := by
    unfold localLog invokedResolvers
    simp only [List.count, List.countP_filterMap]
    refine List.countP_mono_left fun e _ he => ?_
    cases hx : localEvent seq e with
    | none =>
      rw [hx] at he
      cases he
    | some x =>
      rw [hx] at he
      rw [hevent (hx.trans (congrArg some (eq_of_beq he)))]
      simp
  exact Nat.le_trans hcount (List.nodup_iff_count_le_one.mp h.resolved_nodup seq)

end OcamlTemporal
