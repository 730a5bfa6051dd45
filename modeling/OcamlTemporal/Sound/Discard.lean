import Mathlib.Tactic.SplitIfs
import OcamlTemporal.Worker.Discard

/-!
# OcamlTemporal.Sound.Discard

**A deferred discard is not lost.** Two attempts at the same time can fail each other, so that
the flag may stay raised for ever. What must not get lost is the discard, and it does not: an
attempt that finds a mutex taken leaves the adapter to the thread that holds it, which is a lane
that will try again or an attempt that is discarding (`Inv.covered_of_held`). `Covered` says so
of an adapter, `Inv` keeps it along a run, and `discard_not_lost` reads it off.
-/

namespace OcamlTemporal.Worker.Discard

open Lib

/-! ## Who will discard -/

def Thread.held : Thread → Option Side
  | .lane side true => some side
  | .discards side _ => some side
  | .gone | .lane _ false | .checks | .tries _ _ | .done _ => none

/-- The thread will discard the adapter, or try to. -/
def Thread.Covers (pending : Bool) (side : Side) : Thread → Prop
  | .lane _ _ | .checks => pending = true
  | .tries .workflow _ | .discards .workflow _ => True
  | .tries .activity _ | .discards .activity _ => side = .activity
  | .gone | .done _ => False

/-- What an attempt that has succeeded so far has done. -/
def Thread.Promises (discarded : Side → Bool) : Thread → Prop
  | .tries .activity true | .discards .activity true => discarded .workflow = true
  | .done true => ∀ side, discarded side = true
  | _ => True

def Thread.isAttempt : Thread → Bool
  | .tries _ _ | .discards _ _ | .done _ => true
  | .gone | .lane _ _ | .checks => false

variable {s s' : State} {n : Nat} {side : Side}

/-- The adapter is discarded or will be. -/
def Covered (s : State) (side : Side) : Prop :=
  s.discarded side = true ∨ ∃ n, (s.threads n).Covers s.pending side

/-- A mutex is held by the thread that says so (`mutex`), an attempt that has succeeded so far
did what it promises, nothing happens before the request (`before`), a cleared flag means that
the discard is done (`cleared`), and until then somebody covers it (`covered`). -/
structure Inv (s : State) : Prop where
  mutex : ∀ side n, s.mutex side = some n ↔ (s.threads n).held = some side
  promises : ∀ n, (s.threads n).Promises s.discarded
  before : s.requested = false →
    s.pending = false ∧ (∀ n, (s.threads n).isAttempt = false) ∧ ∀ side, s.discarded side = false
  cleared : s.requested = true → s.pending = false → ∀ side, s.discarded side = true
  covered : s.requested = true → s.raised = false → ∀ side, Covered s side

theorem Inv.initial : Inv .initial where
  mutex _ _ := by simp [State.initial, Thread.held]
  promises _ := trivial
  before _ := ⟨rfl, fun _ => rfl, fun _ => rfl⟩
  cleared h := by cases h
  covered h := by cases h

variable {t : Thread}

/-- A thread that goes on covers what it covered, or somebody else does. -/
theorem Covered.move (h : Covered s side) (hthreads : s'.threads = Function.update s.threads n t)
    (hpending : s'.pending = s.pending)
    (hmono : ∀ side, s.discarded side = true → s'.discarded side = true)
    (ht : (s.threads n).Covers s.pending side → Covered s' side) : Covered s' side := by
  rcases h with hdiscarded | ⟨m, hm⟩
  · exact .inl (hmono side hdiscarded)
  · by_cases hmn : m = n
    · exact ht (hmn ▸ hm)
    · refine .inr ⟨m, ?_⟩
      rw [hthreads, Function.update_of_ne hmn, hpending]
      exact hm

theorem Covered.of_thread (hthreads : s'.threads = Function.update s.threads n t)
    (ht : t.Covers s'.pending side) : Covered s' side := by
  refine .inr ⟨n, ?_⟩
  rw [hthreads, Function.update_self]
  exact ht

theorem Promises.mono {discarded discarded' : Side → Bool}
    (hmono : ∀ side, discarded side = true → discarded' side = true) (h : t.Promises discarded) :
    t.Promises discarded' := by
  cases t with
  | gone | lane | checks => trivial
  | tries side ok | discards side ok =>
    cases side <;> cases ok <;> first | trivial | exact hmono _ h
  | done ok =>
    cases ok with
    | false => trivial
    | true => exact fun side => hmono side (h side)

namespace Inv

variable {t : Thread} {ok : Bool}

/-- **The step of a thread.** Only the thread `n` moves, to `t`; the other fields may change as
far as the invariant allows it. -/
theorem move (h : Inv s) (hthreads : s'.threads = Function.update s.threads n t)
    (hmutex : ∀ side m, s'.mutex side = some m ↔
      if m = n then t.held = some side else s.mutex side = some m)
    (hmono : ∀ side, s.discarded side = true → s'.discarded side = true)
    (hpromises : t.Promises s'.discarded)
    (hbefore : s'.requested = false → s.requested = false ∧ t.isAttempt = false ∧
      s'.pending = s.pending ∧ s'.discarded = s.discarded)
    (hcleared : s'.requested = true → s'.pending = false → ∀ side, s'.discarded side = true)
    (hcovered : s'.requested = true → s'.raised = false → ∀ side, Covered s' side) : Inv s' where
  mutex side m := by
    rw [hmutex, hthreads, Function.update_apply, h.mutex]
    split_ifs <;> rfl
  promises m := by
    rw [hthreads, Function.update_apply]
    split_ifs
    · exact hpromises
    · exact Promises.mono hmono (h.promises m)
  before hrequested := by
    obtain ⟨hold, hattempt, hpending, hdiscarded⟩ := hbefore hrequested
    obtain ⟨hpending', hattempts, hdiscarded'⟩ := h.before hold
    refine ⟨hpending.trans hpending', fun m => ?_, fun side => hdiscarded ▸ hdiscarded' side⟩
    rw [hthreads, Function.update_apply]
    split_ifs
    · exact hattempt
    · exact hattempts m
  cleared := hcleared
  covered := hcovered

theorem mutex_kept (h : Inv s) (hheld : t.held = (s.threads n).held) (side : Side) (m : Nat) :
    s.mutex side = some m ↔ if m = n then t.held = some side else s.mutex side = some m := by
  split_ifs with hm
  · rw [h.mutex, hm, hheld]
  · rfl

theorem mutex_taken (h : Inv s) (hfree : s.mutex side = none) (hheld : t.held = some side)
    (hnone : (s.threads n).held = none) (side' : Side) (m : Nat) :
    (s.setMutex side (some n)).mutex side' = some m ↔
      if m = n then t.held = some side' else s.mutex side' = some m := by
  have hothers := h.mutex side' m
  simp only [State.setMutex, Function.update_apply, hheld, Option.some.injEq]
  split_ifs with hside hm hm
  · simp [hm, hside]
  · simp [Ne.symm hm, hside, hfree]
  · rw [hothers, hm, hnone]
    simp [Ne.symm hside]
  · rfl

theorem mutex_given (h : Inv s) (hheld : (s.threads n).held = some side) (hnone : t.held = none)
    (side' : Side) (m : Nat) :
    (s.setMutex side none).mutex side' = some m ↔
      if m = n then t.held = some side' else s.mutex side' = some m := by
  have hothers := h.mutex side' m
  have hmine := (h.mutex side n).mpr hheld
  simp only [State.setMutex, Function.update_apply, hnone, reduceCtorEq]
  split_ifs with hside hm hm
  · rfl
  · rw [hside, hmine]
    simp [Ne.symm hm]
  · rw [hothers, hm, hheld]
    simp [Ne.symm hside]
  · rfl

/-- A step of a lane: nothing changes for the discard. -/
theorem stay (h : Inv s) (hthreads : s'.threads = Function.update s.threads n t)
    (hmutex : ∀ side m, s'.mutex side = some m ↔
      if m = n then t.held = some side else s.mutex side = some m)
    (hsame : (s'.pending, s'.requested, s'.discarded, s'.raised) =
      (s.pending, s.requested, s.discarded, s.raised))
    (hpromises : t.Promises s.discarded) (hattempt : s.requested = false → t.isAttempt = false)
    (hcovers : ∀ side, (s.threads n).Covers s.pending side → Covered s' side) : Inv s' := by
  simp only [Prod.mk.injEq] at hsame
  obtain ⟨hpending, hrequested, hdiscarded, hraised⟩ := hsame
  refine h.move hthreads hmutex (fun side => hdiscarded ▸ id) (hdiscarded ▸ hpromises)
    (fun hno => ?_) (fun hyes hclear => ?_) (fun hyes hnot side => ?_)
  · rw [hrequested] at hno
    exact ⟨hno, hattempt hno, hpending, hdiscarded⟩
  · rw [hdiscarded]
    exact h.cleared (hrequested ▸ hyes) (hpending ▸ hclear)
  · exact (h.covered (hrequested ▸ hyes) (hraised ▸ hnot) side).move hthreads hpending
      (fun side => hdiscarded ▸ id) (hcovers side)

theorem requested_of_attempt (h : Inv s) (hattempt : (s.threads n).isAttempt = true) :
    s.requested = true := by
  by_contra hno
  have hnone := (h.before (Bool.not_eq_true _ ▸ hno)).2.1 n
  rw [hattempt] at hnone
  cases hnone

/-- An attempt that finds a mutex taken leaves its adapter to the holder. -/
theorem covered_of_held (h : Inv s) (hrequested : s.requested = true) {m : Nat}
    (hm : s.mutex side = some m) :
    s.discarded side = true ∨ (s.threads m).Covers s.pending side := by
  have hheld := (h.mutex side m).mp hm
  cases hthread : s.threads m with
  | gone | checks | tries | done =>
    rw [hthread] at hheld
    cases hheld
  | lane side' holds =>
    cases hpending : s.pending with
    | false => exact .inl (h.cleared hrequested hpending side)
    | true => exact .inr rfl
  | discards side' ok =>
    rw [hthread] at hheld
    obtain rfl := Option.some.inj hheld
    cases side' with
    | workflow => exact .inr trivial
    | activity => exact .inr rfl

theorem attempt_locks (h : Inv s) (hthread : s.threads n = .tries side ok)
    (hfree : s.mutex side = none) :
    Inv ((s.setMutex side (some n)).goto n (.discards side ok)) := by
  have hrequested := h.requested_of_attempt (n := n) (by rw [hthread]; rfl)
  have hpromise := h.promises n
  rw [hthread] at hpromise
  refine h.stay rfl (h.mutex_taken hfree rfl (by rw [hthread]; rfl)) rfl
    (by cases side <;> cases ok <;> exact hpromise)
    (fun hno => Bool.noConfusion (hrequested.symm.trans hno)) fun side' hcovers => ?_
  rw [hthread] at hcovers
  exact .of_thread rfl (by cases side <;> exact hcovers)

theorem attempt_fails (h : Inv s) {m : Nat} (hthread : s.threads n = .tries side ok)
    (hm : s.mutex side = some m) : Inv (s.goto n (next side false)) := by
  have hrequested := h.requested_of_attempt (n := n) (by rw [hthread]; rfl)
  have hother : m ≠ n := by
    rintro rfl
    have hheld := (h.mutex side m).mp hm
    rw [hthread] at hheld
    cases hheld
  refine h.stay rfl (h.mutex_kept (by rw [hthread]; cases side <;> rfl)) rfl
    (by cases side <;> trivial) (fun hno => Bool.noConfusion (hrequested.symm.trans hno))
    fun side' hcovers => ?_
  by_cases hside : side' = side
  · -- the holder of the mutex is another thread, which stays where it is
    subst hside
    rcases h.covered_of_held hrequested hm with hdiscarded | hcovers
    · exact .inl hdiscarded
    · refine .inr ⟨m, ?_⟩
      simp only [State.goto, Function.update_of_ne hother]
      exact hcovers
  · rw [hthread] at hcovers
    cases side with
    | workflow =>
      cases side' with
      | workflow => exact absurd rfl hside
      | activity => exact .of_thread rfl rfl
    | activity => exact absurd hcovers hside

theorem attempt_discards (h : Inv s) (hthread : s.threads n = .discards side ok) :
    Inv ({ s with discarded := Function.update s.discarded side true }.setMutex side none
      |>.goto n (next side ok)) := by
  have hrequested := h.requested_of_attempt (n := n) (by rw [hthread]; rfl)
  have hmono : ∀ side', s.discarded side' = true →
      Function.update s.discarded side true side' = true := by
    intro side' hside'
    rw [Function.update_apply]
    split_ifs
    · rfl
    · exact hside'
  have hown : Function.update s.discarded side true side = true := Function.update_self ..
  have hheld : (s.threads n).held = some side := by rw [hthread]; rfl
  have hpromise := h.promises n
  refine h.move rfl (h.mutex_given hheld (by cases side <;> rfl)) hmono ?_
    (fun hno => Bool.noConfusion (hrequested.symm.trans hno))
    (fun _ hclear side' => hmono side' (h.cleared hrequested hclear side')) fun _ hnot side' => ?_
  · rw [hthread] at hpromise
    cases side with
    | workflow =>
      cases ok with
      | false => trivial
      | true => exact hown
    | activity =>
      cases ok with
      | false => trivial
      | true =>
        intro side'
        cases side' with
        | workflow => exact hmono _ hpromise
        | activity => exact hown
  · refine (h.covered hrequested hnot side').move rfl rfl hmono fun hcovers => ?_
    by_cases hside : side' = side
    · subst hside
      exact .inl hown
    · rw [hthread] at hcovers
      cases side with
      | workflow =>
        cases side' with
        | workflow => exact absurd rfl hside
        | activity => exact .of_thread rfl rfl
      | activity => exact absurd hcovers hside

theorem attempt_raises (h : Inv s) (hthread : s.threads n = .discards side ok) :
    Inv ({ s with raised := true }.setMutex side none |>.goto n (.done false)) := by
  have hrequested := h.requested_of_attempt (n := n) (by rw [hthread]; rfl)
  refine h.move rfl (h.mutex_given (by rw [hthread]; rfl) rfl) (fun _ => id) trivial
    (fun hno => Bool.noConfusion (hrequested.symm.trans hno))
    h.cleared fun _ hnot => by cases hnot

theorem attempt_finishes (h : Inv s) (hthread : s.threads n = .done ok) :
    Inv ({ s with pending := s.pending && !ok }.goto n .gone) := by
  have hrequested := h.requested_of_attempt (n := n) (by rw [hthread]; rfl)
  have hpromise := h.promises n
  rw [hthread] at hpromise
  refine h.move rfl (h.mutex_kept (by rw [hthread]; rfl)) (fun _ => id) trivial
    (fun hno => Bool.noConfusion (hrequested.symm.trans hno))
    (fun _ hclear => ?_) fun _ hnot side => ?_
  · cases ok with
    | true => exact hpromise
    | false => exact h.cleared hrequested (by simpa [State.goto] using hclear)
  · cases ok with
    | true => exact .inl (hpromise side)
    | false =>
      refine (h.covered hrequested hnot side).move rfl (by simp [State.goto]) (fun _ => id)
        fun hcovers => ?_
      rw [hthread] at hcovers
      exact hcovers.elim

theorem step (h : Inv s) {l : Label} (hstep : Discard.step s l = some s') : Inv s' := by
  cases l with
  | start n side =>
    simp only [Discard.step] at hstep
    split at hstep
    · rename_i hthread
      cases hstep
      refine h.stay rfl (h.mutex_kept (by rw [hthread]; rfl)) rfl trivial (fun _ => rfl)
        fun side hcovers => ?_
      rw [hthread] at hcovers
      exact hcovers.elim
    · cases hstep
  | lock n =>
    simp only [Discard.step] at hstep
    split at hstep
    · rename_i side hthread
      split_ifs at hstep with hfree
      cases hstep
      refine h.stay rfl (h.mutex_taken (Option.isNone_iff_eq_none.mp hfree) rfl
        (by rw [hthread]; rfl)) rfl trivial (fun _ => rfl) fun side hcovers => ?_
      rw [hthread] at hcovers
      exact .of_thread rfl hcovers
    · cases hstep
  | unlock n =>
    simp only [Discard.step] at hstep
    split at hstep
    · rename_i side hthread
      cases hstep
      refine h.stay rfl (h.mutex_given (by rw [hthread]; rfl) rfl) rfl trivial (fun _ => rfl)
        fun side hcovers => ?_
      rw [hthread] at hcovers
      exact .of_thread rfl hcovers
    · cases hstep
  | retry n =>
    simp only [Discard.step] at hstep
    split at hstep
    · rename_i side hthread
      cases hstep
      refine h.stay rfl (h.mutex_kept (by rw [hthread]; rfl)) rfl trivial (fun _ => rfl)
        fun side hcovers => ?_
      rw [hthread] at hcovers
      exact .of_thread rfl hcovers
    · cases hstep
  | check n =>
    simp only [Discard.step] at hstep
    split at hstep
    · rename_i hthread
      cases hstep
      cases hpending : s.pending with
      | false =>
        refine h.stay rfl (h.mutex_kept (by rw [hthread]; rfl)) rfl trivial (fun _ => rfl)
          fun side hcovers => ?_
        rw [hthread, hpending] at hcovers
        cases hcovers
      | true =>
        refine h.stay rfl (h.mutex_kept (by rw [hthread]; rfl)) rfl trivial (fun hno => ?_)
          fun side _ => .of_thread rfl trivial
        rw [(h.before hno).1] at hpending
        cases hpending
    · cases hstep
  | request n =>
    simp only [Discard.step] at hstep
    split at hstep
    · rename_i hthread
      cases hstep
      exact h.move rfl (h.mutex_kept (by rw [hthread]; rfl)) (fun _ => id) trivial
        (fun hno => by cases hno) (fun _ hclear => by cases hclear)
        fun _ _ side => .of_thread rfl trivial
    · cases hstep
  | tryLock n =>
    simp only [Discard.step] at hstep
    split at hstep
    · rename_i side ok hthread
      split_ifs at hstep with hfree
      · cases hstep
        exact h.attempt_locks hthread (Option.isNone_iff_eq_none.mp hfree)
      · cases hstep
        cases hm : s.mutex side with
        | none => exact absurd (Option.isNone_iff_eq_none.mpr hm) hfree
        | some m => exact h.attempt_fails hthread hm
    · cases hstep
  | discard n raises =>
    simp only [Discard.step] at hstep
    split at hstep
    · rename_i side ok hthread
      split_ifs at hstep
      · cases hstep
        exact h.attempt_raises hthread
      · cases hstep
        exact h.attempt_discards hthread
    · cases hstep
  | finish n =>
    simp only [Discard.step] at hstep
    split at hstep
    · rename_i ok hthread
      cases hstep
      exact h.attempt_finishes hthread
    · cases hstep

end Inv

theorem reachable_inv (h : system.Reachable s) : Inv s := by
  refine h.invariant (fun s hs => ?_) fun l s s' _ hinv hstep => hinv.step hstep
  obtain rfl := hs
  exact Inv.initial

/-- **The discard is not lost.** Nothing is discarded before the native graph was released. From
then on, and unless a discard raises, every adapter was discarded or there is a thread that will
discard it or try to; so both were discarded when no thread is left, whatever became of the
flag. -/
theorem discard_not_lost (s : State) (h : system.Reachable s) :
    (∀ side, s.discarded side = true → s.requested = true) ∧
      (s.requested = true → s.raised = false →
        (∀ side, Covered s side) ∧
          ((∀ n, s.threads n = .gone) → ∀ side, s.discarded side = true)) := by
  have hinv := reachable_inv h
  refine ⟨fun side hside => ?_, fun hrequested hraised =>
    ⟨hinv.covered hrequested hraised, fun hgone side => ?_⟩⟩
  · by_contra hno
    have hnone := (hinv.before (Bool.not_eq_true _ ▸ hno)).2.2 side
    rw [hside] at hnone
    cases hnone
  · rcases hinv.covered hrequested hraised side with hdiscarded | ⟨n, hn⟩
    · exact hdiscarded
    · rw [hgone n] at hn
      exact hn.elim

/-- The release and the end of the workflow lane at the same time: each of them holds the mutex
that the other one tries. -/
def crossed : State :=
  (system.replay
    [.start 2 .workflow, .request 1, .retry 2, .check 2, .tryLock 2, .tryLock 1, .tryLock 1,
      .discard 2 false, .tryLock 2, .discard 1 false, .finish 1, .finish 2] .initial).get (by rfl)

/-- The flag stays raised, but both adapters were discarded. -/
theorem discard_not_lost_crossed :
    crossed.pending = true ∧ ∀ side, crossed.discarded side = true := by
  have hgone : ∀ n, crossed.threads n = .gone := by
    intro n
    rcases n with _ | _ | _ | n <;> rfl
  have hreachable : system.Reachable crossed :=
    (Transitions.Reachable.start rfl).replay (Option.some_get _).symm
  exact ⟨by rfl, ((discard_not_lost crossed hreachable).2 (by rfl) (by rfl)).2 hgone⟩

end OcamlTemporal.Worker.Discard
