import Mathlib
import OcamlTemporal.Lib.History
import OcamlTemporal.Worker.Idle

/-!
# OcamlTemporal.Sound.Idle

**An idle lane does not spin.** A lane's remembered epoch and generations chase the two shared
counters. `LaneOk` is the account: every zero delay that the lane was given is paid for by an
advance of a counter that the lane had not yet seen. Other lanes and notifications only advance
counters, so the account holds in every interleaving.
-/

namespace OcamlTemporal.Worker.Idle

def Given.isJoin : Given → Bool
  | join _ => true
  | _ => false

def Given.isWork : Given → Bool
  | work _ => true
  | _ => false

/-- The native wait during which the backoff was restarted early. -/
def Given.early? : Given → Option Nat
  | early generation _ => some generation
  | _ => none

def Lane.zeros (lane : Lane) : Nat := lane.given.countP (·.delay = 0)

/-- The account of a lane, for the shared counters. -/
structure LaneOk (epoch generation : Nat) (lane : Lane) : Prop where
  seen : lane.seenEpoch ≤ epoch
  joined : lane.joinedGeneration ≤ generation
  early : lane.earlyGeneration ≤ generation
  asked : ∀ g, lane.stage = .asked g →
    lane.joinedGeneration ≤ g ∧ lane.earlyGeneration ≤ g ∧ g ≤ generation
  works : lane.given.countP Given.isWork + epoch ≤ lane.works + lane.seenEpoch
  waits : lane.given.countP Given.isJoin + generation ≤ lane.waits + lane.joinedGeneration
  zero : ∀ given ∈ lane.given, given.delay = 0 → given.isJoin = true ∨ given.isWork = true
  restarts : (lane.given.filterMap Given.early?).Pairwise (· < ·)
  restarted : ∀ g ∈ lane.given.filterMap Given.early?, g ≤ lane.earlyGeneration

namespace LaneOk

variable {pacing : Pacing} {epoch generation : Nat} {lane : Lane}

theorem create (epoch generation : Nat) : LaneOk epoch generation (.create epoch generation) where
  seen := le_rfl
  joined := le_rfl
  early := le_rfl
  asked _ h := nomatch h
  works := by simp [Lane.create]
  waits := by simp [Lane.create]
  zero _ h := nomatch h
  restarts := .nil
  restarted _ h := nomatch h

theorem work (h : LaneOk epoch generation lane) :
    LaneOk (epoch + 1) generation { lane with works := lane.works + 1 } where
  seen := h.seen.trans (Nat.le_succ _)
  joined := h.joined
  early := h.early
  asked := h.asked
  works := by have hworks := h.works; dsimp only; omega
  waits := h.waits
  zero := h.zero
  restarts := h.restarts
  restarted := h.restarted

theorem wait (h : LaneOk epoch generation lane) :
    LaneOk epoch (generation + 1) { lane with waits := lane.waits + 1 } where
  seen := h.seen
  joined := h.joined.trans (Nat.le_succ _)
  early := h.early.trans (Nat.le_succ _)
  asked g hg := by
    obtain ⟨hjoined, hearly, hle⟩ := h.asked g hg
    exact ⟨hjoined, hearly, hle.trans (Nat.le_succ _)⟩
  works := h.works
  waits := by have hwaits := h.waits; dsimp only; omega
  zero := h.zero
  restarts := h.restarts
  restarted := h.restarted

theorem goes (h : LaneOk epoch generation lane) {stage : Stage} (hstage : ∀ g, stage ≠ .asked g) :
    LaneOk epoch generation { lane with stage } :=
  ⟨h.seen, h.joined, h.early, fun g hg => absurd hg (hstage g), h.works, h.waits, h.zero,
    h.restarts,
    h.restarted⟩

theorem ask (h : LaneOk epoch generation lane) :
    LaneOk epoch generation { lane with stage := .asked generation } where
  seen := h.seen
  joined := h.joined
  early := h.early
  asked g hg := by
    obtain rfl := Stage.asked.inj hg
    exact ⟨h.joined, h.early, le_rfl⟩
  works := h.works
  waits := h.waits
  zero := h.zero
  restarts := h.restarts
  restarted := h.restarted

theorem ready (h : LaneOk (epoch + 1) generation lane) :
    LaneOk (epoch + 1) generation (lane.ready epoch) := by
  rw [Lane.ready]
  split_ifs with hseen
  · have hworks := h.works
    exact ⟨le_rfl, h.joined, h.early, h.asked, by dsimp only; omega, h.waits, h.zero, h.restarts,
      h.restarted⟩
  · exact h

/-- A further delay that is not zero, or one that is accounted for. -/
theorem zero_snoc (h : LaneOk epoch generation lane) {given : Given}
    (hgiven : given.delay = 0 → given.isJoin = true ∨ given.isWork = true) :
    ∀ other ∈ lane.given ++ [given], other.delay = 0 → other.isJoin = true ∨
      other.isWork = true := by
  intro other hother hzero
  rcases List.mem_append.mp hother with hother | hother
  · exact h.zero other hother hzero
  · rw [List.mem_singleton.mp hother] at hzero ⊢
    exact hgiven hzero

theorem early_snoc (h : LaneOk epoch generation lane) (given : Given)
    (hgiven : given.early? = none) :
    ((lane.given ++ [given]).filterMap Given.early?).Pairwise (· < ·) ∧
      ∀ g ∈ (lane.given ++ [given]).filterMap Given.early?, g ≤ lane.earlyGeneration := by
  have hmap : (lane.given ++ [given]).filterMap Given.early? = lane.given.filterMap
    Given.early? := by
    rw [Lib.filterMap_snoc, hgiven]
    exact List.append_nil _
  rw [hmap]
  exact ⟨h.restarts, h.restarted⟩

theorem look (h : LaneOk epoch generation lane) {g : Nat} (hstage : lane.stage = .asked g)
    (inFlight : Bool) : LaneOk epoch generation (lane.look pacing g inFlight) := by
  obtain ⟨hjoined, hearly, hle⟩ := h.asked g hstage
  have hwaits := h.waits
  rw [Lane.look]
  split_ifs with hjoin hrestart
  · -- the generation is a later one, which pays for the zero delay
    have hlt : lane.joinedGeneration < g := lt_of_le_of_ne hjoined (Ne.symm hjoin.2)
    obtain ⟨hrestarts, hrestarted⟩ := h.early_snoc (.join g) rfl
    refine ⟨h.seen, hle, h.early, nofun, ?_, ?_, h.zero_snoc fun _ => .inl rfl, hrestarts,
      hrestarted⟩
    · simpa [Lane.give, Given.isWork] using h.works
    · simp only [Lane.give, List.countP_append, List.countP_singleton, Given.isJoin, if_true]
      omega
  · have hlt : lane.earlyGeneration < g := lt_of_le_of_ne hearly (Ne.symm hrestart.2)
    have hmap : (lane.given ++ [Given.early g pacing.firstDelay]).filterMap Given.early? =
        lane.given.filterMap Given.early? ++ [g] := Lib.filterMap_snoc ..
    refine ⟨h.seen, h.joined, hle, nofun, ?_, ?_,
      h.zero_snoc fun hzero => absurd hzero pacing.positive.ne', ?_, ?_⟩
    · simpa [Lane.give, Given.isWork] using h.works
    · simpa [Lane.give, Given.isJoin] using h.waits
    · rw [Lane.give, hmap]
      refine List.pairwise_append.mpr ⟨h.restarts, List.pairwise_singleton _ _, ?_⟩
      rintro g' hg' _ hnew
      rw [List.mem_singleton.mp hnew]
      exact (h.restarted g' hg').trans_lt hlt
    · rw [Lane.give, hmap]
      intro g' hg'
      rcases List.mem_append.mp hg' with hg' | hg'
      · exact (h.restarted g' hg').trans hlt.le
      · exact (List.mem_singleton.mp hg').le
  · exact h.goes (by simp)

theorem pace (h : LaneOk epoch generation lane) :
    LaneOk epoch generation (lane.pace pacing epoch) := by
  have hworks := h.works
  rw [Lane.pace]
  by_cases hwork : epoch ≠ lane.seenEpoch
  · rw [if_pos hwork]
    have hlt : lane.seenEpoch < epoch := lt_of_le_of_ne h.seen (Ne.symm hwork)
    obtain ⟨hrestarts, hrestarted⟩ := h.early_snoc (.work epoch) rfl
    refine ⟨le_rfl, h.joined, h.early, nofun, ?_, ?_, h.zero_snoc fun _ => .inr rfl, hrestarts,
      hrestarted⟩
    · simp only [Lane.give, List.countP_append, List.countP_singleton, Given.isWork, if_true]
      omega
    · simpa [Lane.give, Given.isJoin] using h.waits
  · rw [if_neg hwork]
    have hpositive : 0 < (if lane.delay ≤ 0 then pacing.firstDelay
        else min pacing.maxDelay (lane.delay * 2)) := by
      split_ifs with hdelay
      · exact pacing.positive
      · have hmax := pacing.positive.trans_le pacing.ordered
        have hdouble : 0 < lane.delay * 2 := by linarith
        exact lt_min hmax hdouble
    obtain ⟨hrestarts, hrestarted⟩ := h.early_snoc (.backoff _) rfl
    refine ⟨h.seen, h.joined, h.early, nofun, ?_, ?_,
      h.zero_snoc fun hzero => absurd hzero hpositive.ne', hrestarts, hrestarted⟩
    · simpa [Lane.give, Given.isWork] using h.works
    · simpa [Lane.give, Given.isJoin] using h.waits

/-- Every zero delay joins a wait or restarts the backoff after work. -/
theorem zeros_le (h : LaneOk epoch generation lane) : lane.zeros ≤ lane.works + lane.waits := by
  have hsplit : lane.zeros ≤
      lane.given.countP Given.isJoin + lane.given.countP Given.isWork := by
    have hzero := h.zero
    rw [Lane.zeros]
    generalize lane.given = l at hzero
    induction l with
    | nil => simp
    | cons given l ih =>
      have hrest := ih fun g hg => hzero g (List.mem_cons_of_mem _ hg)
      have hhead := hzero given List.mem_cons_self
      simp only [List.countP_cons]
      by_cases hdelay : given.delay = 0
      · rcases hhead hdelay with hjoin | hwork
        · simp only [hdelay, hjoin, decide_true, if_true]
          omega
        · simp only [hdelay, hwork, decide_true, if_true]
          omega
      · simp only [hdelay, decide_false]
        have hfalse : (if false = true then 1 else 0) = 0 := rfl
        omega
  have hworks := h.works
  have hwaits := h.waits
  have hseen := h.seen
  have hjoined := h.joined
  omega

end LaneOk

def Accounts (s : State) : Prop :=
  ∀ i lane, s.lanes i = some lane → LaneOk s.workEpoch s.waitGeneration lane

namespace Accounts

variable {pacing : Pacing} {s s' : State} {i : Nat} {lane : Lane}

theorem setLane (h : Accounts s) (hlane : LaneOk s.workEpoch s.waitGeneration lane) :
    Accounts (s.setLane i lane) := by
  intro j lane' hlane'
  by_cases hj : j = i
  · subst hj
    obtain rfl : lane = lane' := by simpa [State.setLane] using hlane'
    exact hlane
  · exact h j lane' (by simpa [State.setLane, hj] using hlane')

theorem flag (h : Accounts s) (waiting : Bool) : Accounts { s with waiting } := h

theorem work (h : Accounts s) : Accounts s.work := by
  intro j lane' hlane'
  obtain ⟨lane, hlane, rfl⟩ := Option.map_eq_some_iff.mp hlane'
  exact (h j lane hlane).work

theorem wait (h : Accounts s) : Accounts s.wait := by
  intro j lane' hlane'
  obtain ⟨lane, hlane, rfl⟩ := Option.map_eq_some_iff.mp hlane'
  exact (h j lane hlane).wait

theorem step {l : Label} (h : Accounts s) (hstep : s.step pacing l = some s') : Accounts s' := by
  cases l with
  | lane i =>
    simp only [State.step] at hstep
    split_ifs at hstep
    cases hstep
    exact h.setLane (LaneOk.create _ _)
  | noteWork =>
    cases hstep
    exact h.work
  | noteReady i =>
    obtain ⟨lane, hlane, hnext⟩ := Option.bind_eq_some_iff.mp hstep
    split_ifs at hnext
    cases hnext
    exact h.work.setLane (h i lane hlane).work.ready
  | ask i =>
    obtain ⟨lane, hlane, hnext⟩ := Option.bind_eq_some_iff.mp hstep
    split_ifs at hnext
    cases hnext
    exact h.setLane (h i lane hlane).ask
  | look i =>
    obtain ⟨lane, hlane, hnext⟩ := Option.bind_eq_some_iff.mp hstep
    split at hnext
    · rename_i generation hstage
      cases hnext
      exact h.setLane ((h i lane hlane).look hstage _)
    · cases hnext
  | pace i =>
    obtain ⟨lane, hlane, hnext⟩ := Option.bind_eq_some_iff.mp hstep
    split_ifs at hnext
    cases hnext
    exact h.setLane (h i lane hlane).pace
  | startWait i =>
    obtain ⟨lane, hlane, hnext⟩ := Option.bind_eq_some_iff.mp hstep
    split_ifs at hnext
    cases hnext
    exact h.wait.setLane ((h i lane hlane).wait.goes (by simp))
  | raiseFlag i =>
    obtain ⟨lane, hlane, hnext⟩ := Option.bind_eq_some_iff.mp hstep
    split_ifs at hnext
    cases hnext
    exact (h.flag true).setLane ((h i lane hlane).goes (by simp))
  | endWait i =>
    obtain ⟨lane, hlane, hnext⟩ := Option.bind_eq_some_iff.mp hstep
    split_ifs at hnext
    cases hnext
    exact (h.flag false).setLane ((h i lane hlane).goes (by simp))

theorem of_reachable (hs : (idleSystem pacing).Reachable s) : Accounts s := by
  refine hs.invariant (I := Accounts) ?_ fun _ _ _ _ h hstep => h.step hstep
  rintro s rfl
  exact fun i lane hlane => nomatch hlane

end Accounts

/-- **Zero delays are paid for.** In every interleaving, a lane was given at most as many zero
delays as there were advances of the work epoch and starts of native waits since it was created. It
restarts its backoff early at most once in a native wait, so also between any two restarts within
one wait. From any state on, as long as there is no new work and no new wait, the zero delays that
the lane is given stay below a bound that is known at the beginning. -/
theorem zero_delays_bounded {pacing : Pacing} {s : State} (hs : (idleSystem pacing).Reachable s)
    {i : Nat} {lane : Lane} (hlane : s.lanes i = some lane) :
    lane.zeros ≤ lane.works + lane.waits ∧
      (lane.given.filterMap Given.early?).Pairwise (· < ·) ∧
      ∀ schedule s' lane', (idleSystem pacing).replay schedule s = some s' →
        s'.lanes i = some lane' → lane'.works = lane.works → lane'.waits = lane.waits →
        lane'.zeros ≤ lane.works + lane.waits := by
  have hok := Accounts.of_reachable hs i lane hlane
  refine ⟨hok.zeros_le, hok.restarts, fun schedule s' lane' hreplay hlane' hworks hwaits => ?_⟩
  have hok' := Accounts.of_reachable (hs.replay hreplay) i lane' hlane'
  rw [← hworks, ← hwaits]
  exact hok'.zeros_le

def onePacing : Pacing := ⟨1, 10, by norm_num, by norm_num⟩

/-- The sibling waits; the lane joins the wait, its poll returns early, and then there is work. -/
def joinSchedule : List Label :=
  [.lane 0, .lane 1, .startWait 1, .raiseFlag 1, .ask 0, .look 0, .ask 0, .look 0, .ask 0, .look 0,
    .noteWork, .pace 0, .ask 0, .look 0, .pace 0]

theorem zero_delays_bounded_join : ∃ lane : Lane,
    lane.given = [.join 1, .early 1 1, .work 1, .backoff 1] ∧ lane.works = 1 ∧ lane.waits = 1 ∧
      lane.zeros ≤ lane.works + lane.waits := by
  have hrun : (((idleSystem onePacing).replay joinSchedule .initial).bind
      (·.lanes 0)).map (fun lane => (lane.given, lane.works, lane.waits)) =
        some ([.join 1, .early 1 1, .work 1, .backoff 1], 1, 1) := by decide +kernel
  obtain ⟨lane, hbind, heq⟩ := Option.map_eq_some_iff.mp hrun
  obtain ⟨s, hs, hlane⟩ := Option.bind_eq_some_iff.mp hbind
  simp only [Prod.mk.injEq] at heq
  exact ⟨lane, heq.1, heq.2.1, heq.2.2,
    (zero_delays_bounded (Lib.Transitions.Reachable.replay (.start rfl) hs) hlane).1⟩

end OcamlTemporal.Worker.Idle
