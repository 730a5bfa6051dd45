import Mathlib.Data.List.Induction
import OcamlTemporal.Sound.Worker
import OcamlTemporal.Worker.Watchdog

/-!
# OcamlTemporal.Sound.Watchdog

**When an activation is reported, and what comes of it.** The watchdog remembers one epoch and one
report. `Tracks` says what these mean for the samples so far: the count is that of the last
uninterrupted series, and the report is the newest of all that were due. Epochs do not decrease, so
an epoch that is sampled again was reported before exactly if it is the one remembered.

A report leads to a call of `abandon_activation`. However it is called, a watchdog submits at most
once for an activation, and only if the lane has not claimed it.
-/

namespace OcamlTemporal.Worker

open OcamlTemporal.Protocol

namespace Watchdog

variable {tickMs deadlineMs : Nat} {samples before : List (Option Nat)} {epoch : Nat}

/-- The samples end with a series of this epoch that spans the deadline. -/
def Spans (tickMs deadlineMs : Nat) (samples : List (Option Nat)) (epoch : Nat) : Prop :=
  ∃ earlier n, samples = earlier ++ List.replicate (n + 1) (some epoch) ∧ deadlineMs ≤ n * tickMs

/-- The samples end with a series of this epoch that is `n + 1` long, and no longer. -/
def EndsWith (samples : List (Option Nat)) (epoch n : Nat) : Prop :=
  ∃ earlier, samples = earlier ++ List.replicate (n + 1) (some epoch) ∧
    earlier.getLast? ≠ some (some epoch)

def Reports (tickMs deadlineMs : Nat) (samples : List (Option Nat)) (epoch elapsedMs : Nat) :
    Prop :=
  ∃ before running, samples = before ++ [running] ∧
    (run tickMs deadlineMs samples).2 = (run tickMs deadlineMs before).2 ++ [(epoch, elapsedMs)]

theorem run_snoc (samples : List (Option Nat)) (running : Option Nat) :
    run tickMs deadlineMs (samples ++ [running]) =
      ((step tickMs deadlineMs (run tickMs deadlineMs samples).1 running).1,
        (run tickMs deadlineMs samples).2 ++
          (step tickMs deadlineMs (run tickMs deadlineMs samples).1 running).2.toList) := by
  simp [run]

theorem reports_iff {running : Option Nat} {elapsedMs : Nat} :
    Reports tickMs deadlineMs (samples ++ [running]) epoch elapsedMs ↔
      (step tickMs deadlineMs (run tickMs deadlineMs samples).1 running).2 =
        some (epoch, elapsedMs) := by
  constructor
  · rintro ⟨before, running', heq, hreports⟩
    obtain ⟨rfl, rfl⟩ : samples = before ∧ running = running' := by simpa using heq
    rw [run_snoc] at hreports
    have htoList := List.append_cancel_left hreports
    exact Option.toList_eq_singleton_iff.mp htoList
  · intro h
    exact ⟨samples, running, rfl, by rw [run_snoc, h]; rfl⟩

/-! ## Series -/

theorem spans_snoc_none : ¬ Spans tickMs deadlineMs (samples ++ [none]) epoch := by
  rintro ⟨earlier, n, heq, -⟩
  have hlast := congrArg List.getLast? heq
  simp [List.getLast?_append, List.getLast?_replicate] at hlast

theorem spans_snoc_some {other : Nat}
    (h : Spans tickMs deadlineMs (samples ++ [some other]) epoch) :
    epoch = other := by
  obtain ⟨earlier, n, heq, -⟩ := h
  have hlast := congrArg List.getLast? heq
  simpa [List.getLast?_append, List.getLast?_replicate] using hlast.symm

theorem not_spans_nil : ¬ Spans tickMs deadlineMs [] epoch := by
  rintro ⟨earlier, n, heq, -⟩
  have hlength := congrArg List.length heq
  simp at hlength

theorem replicate_snoc (n : Nat) :
    List.replicate n (some epoch) ++ [some epoch] = List.replicate (n + 1) (some epoch) :=
  List.replicate_succ'.symm

theorem EndsWith.snoc {n : Nat} (h : EndsWith samples epoch n) :
    EndsWith (samples ++ [some epoch]) epoch (n + 1) := by
  obtain ⟨earlier, rfl, hearlier⟩ := h
  refine ⟨earlier, ?_, hearlier⟩
  rw [List.append_assoc, replicate_snoc]

theorem endsWith_snoc_of_ne (h : samples.getLast? ≠ some (some epoch)) :
    EndsWith (samples ++ [some epoch]) epoch 0 := ⟨samples, rfl, h⟩

/-- The longest series decides. -/
theorem EndsWith.spans_iff {n : Nat} (h : EndsWith samples epoch n) :
    Spans tickMs deadlineMs samples epoch ↔ deadlineMs ≤ n * tickMs := by
  obtain ⟨earlier, rfl, hearlier⟩ := h
  constructor
  · rintro ⟨earlier', m, heq, hspan⟩
    refine Nat.le_trans hspan (Nat.mul_le_mul_right _ ?_)
    by_contra hlonger
    -- a longer series would take in the sample before it
    obtain ⟨d, rfl⟩ : ∃ d, m = n + (d + 1) := ⟨m - n - 1, by omega⟩
    have hsplit : List.replicate (n + (d + 1) + 1) (some epoch) =
        List.replicate (d + 1) (some epoch) ++ List.replicate (n + 1) (some epoch) := by
      rw [List.replicate_append_replicate]
      congr 1
      omega
    rw [hsplit, ← List.append_assoc] at heq
    have hearlier' := List.append_cancel_right heq
    refine hearlier ?_
    rw [hearlier', List.getLast?_append]
    simp [List.getLast?_replicate]
  · exact fun hspan => ⟨earlier, n, rfl, hspan⟩

/-- The longest series has one length: with a tick of one, a length is a deadline that is met. -/
theorem EndsWith.unique {m n : Nat} (hm : EndsWith samples epoch m)
    (hn : EndsWith samples epoch n) : m = n := by
  have hle : ∀ a b, EndsWith samples epoch a → EndsWith samples epoch b → b ≤ a := by
    intro a b ha hb
    obtain ⟨earlier, heq, -⟩ := hb
    have hiff : Spans 1 b samples epoch ↔ b ≤ a * 1 := ha.spans_iff
    simpa using hiff.mp ⟨earlier, b, heq, by simp⟩
  exact Nat.le_antisymm (hle n m hn hm) (hle m n hm hn)

/-! ## The state -/

structure Tracks (tickMs deadlineMs : Nat) (samples : List (Option Nat)) (state : State) :
    Prop where
  observed : state.observed = samples.getLast?.join
  count : ∀ epoch, state.observed = some epoch →
    ∃ n, EndsWith samples epoch n ∧ state.elapsedMs = n * tickMs
  due : ∀ epoch, state.fired = some epoch →
    ∃ before, before <+: samples ∧ Spans tickMs deadlineMs before epoch
  newest : ∀ before epoch, before <+: samples → Spans tickMs deadlineMs before epoch →
    ∃ fired, state.fired = some fired ∧ epoch ≤ fired

theorem mem_of_spans (hinit : before <+: samples) (h : Spans tickMs deadlineMs before epoch) :
    epoch ∈ samples.filterMap id := by
  obtain ⟨earlier, n, rfl, -⟩ := h
  have hmem : some epoch ∈ samples := hinit.subset (by simp)
  exact List.mem_filterMap.mpr ⟨_, hmem, rfl⟩

theorem Tracks.count_snoc {state : State} (h : Tracks tickMs deadlineMs samples state)
    (epoch : Nat) :
    ∃ n, EndsWith (samples ++ [some epoch]) epoch n ∧
      (if state.observed = some epoch then state.elapsedMs + tickMs else 0) = n * tickMs := by
  by_cases hobserved : state.observed = some epoch
  · obtain ⟨n, hends, hcount⟩ := h.count epoch hobserved
    exact ⟨n + 1, hends.snoc, by rw [if_pos hobserved, hcount, Nat.succ_mul]⟩
  · refine ⟨0, endsWith_snoc_of_ne fun hlast => hobserved ?_, by simp [hobserved]⟩
    rw [h.observed, hlast]
    rfl

/-- The epoch that is sampled was reported before exactly if it is the one remembered. -/
theorem Tracks.fired_iff {state : State} (h : Tracks tickMs deadlineMs samples state)
    (hmono : ∀ other ∈ samples.filterMap id, other ≤ epoch) :
    state.fired = some epoch ↔
      ∃ before, before <+: samples ∧ Spans tickMs deadlineMs before epoch := by
  refine ⟨h.due epoch, ?_⟩
  rintro ⟨before, hinit, hspans⟩
  obtain ⟨fired, hfired, hle⟩ := h.newest before epoch hinit hspans
  obtain ⟨before', hinit', hspans'⟩ := h.due fired hfired
  have hge := hmono fired (mem_of_spans hinit' hspans')
  rw [hfired, Nat.le_antisymm hge hle]

theorem Tracks.due_snoc {state : State} (h : Tracks tickMs deadlineMs samples state)
    (running : Option Nat) (hfired : state.fired = some epoch) :
    ∃ before, before <+: samples ++ [running] ∧ Spans tickMs deadlineMs before epoch := by
  obtain ⟨before, hinit, hspans⟩ := h.due epoch hfired
  exact ⟨before, hinit.trans (List.prefix_append ..), hspans⟩

/-- **One sample**: the state keeps its meaning. An epoch that is due and not reported now is the
one that is remembered. -/
theorem Tracks.step {state : State} (h : Tracks tickMs deadlineMs samples state)
    (running : Option Nat)
    (hmono : ∀ epoch, running = some epoch → ∀ other ∈ samples.filterMap id, other ≤ epoch) :
    Tracks tickMs deadlineMs (samples ++ [running])
      (step tickMs deadlineMs state running).1 := by
  have hlast : (samples ++ [running]).getLast?.join = running := by simp
  cases running with
  | none =>
    refine ⟨hlast.symm, nofun, fun epoch => h.due_snoc none, fun before epoch hinit hspans => ?_⟩
    rcases List.prefix_concat_iff.mp hinit with rfl | hinit
    · exact absurd hspans spans_snoc_none
    · exact h.newest before epoch hinit hspans
  | some epoch =>
    obtain ⟨n, hends, hcount⟩ := h.count_snoc epoch
    have hspans : Spans tickMs deadlineMs (samples ++ [some epoch]) epoch ↔
        deadlineMs ≤ n * tickMs := hends.spans_iff
    have hcounted : ∀ epoch', some epoch = some epoch' →
        ∃ m, EndsWith (samples ++ [some epoch]) epoch' m ∧ n * tickMs = m * tickMs := by
      intro epoch' heq
      obtain rfl := Option.some.inj heq
      exact ⟨n, hends, rfl⟩
    simp only [Watchdog.step, hcount]
    split_ifs with hreport
    · refine ⟨hlast.symm, hcounted, fun epoch' heq => ?_, fun before epoch' hinit hbefore => ?_⟩
      · obtain rfl := Option.some.inj heq
        exact ⟨_, List.prefix_rfl, hspans.mpr hreport.1⟩
      · refine ⟨epoch, rfl, ?_⟩
        rcases List.prefix_concat_iff.mp hinit with rfl | hinit
        · exact Nat.le_of_eq (spans_snoc_some hbefore)
        · exact hmono epoch rfl epoch' (mem_of_spans hinit hbefore)
    · refine ⟨hlast.symm, hcounted, fun _ => h.due_snoc _, fun before epoch' hinit hbefore => ?_⟩
      rcases List.prefix_concat_iff.mp hinit with rfl | hinit
      · obtain rfl := spans_snoc_some hbefore
        have hold : state.fired = some epoch' := by
          by_contra hnot
          exact hreport ⟨hspans.mp hbefore, hnot⟩
        exact ⟨epoch', hold, Nat.le_refl _⟩
      · exact h.newest before epoch' hinit hbefore

/-- **What one sample reports**: an epoch that is due now and was not due before, with the length
of its series. -/
theorem Tracks.step_reports {state : State} (h : Tracks tickMs deadlineMs samples state)
    (running : Option Nat)
    (hmono : ∀ epoch, running = some epoch → ∀ other ∈ samples.filterMap id, other ≤ epoch)
    (epoch elapsedMs : Nat) :
    (Watchdog.step tickMs deadlineMs state running).2 = some (epoch, elapsedMs) ↔
      (Spans tickMs deadlineMs (samples ++ [running]) epoch ∧
        ∀ before, before <+: samples → ¬ Spans tickMs deadlineMs before epoch) ∧
      ∃ n, EndsWith (samples ++ [running]) epoch n ∧ elapsedMs = n * tickMs := by
  cases running with
  | none => exact iff_of_false nofun fun hspans => spans_snoc_none hspans.1.1
  | some sampled =>
    obtain ⟨n, hends, hcount⟩ := h.count_snoc sampled
    have hfired := h.fired_iff (hmono sampled rfl)
    simp only [Watchdog.step, hcount]
    split_ifs with hreport
    · constructor
      · intro heq
        obtain ⟨rfl, rfl⟩ : sampled = epoch ∧ n * tickMs = elapsedMs := by simpa using heq
        refine ⟨⟨hends.spans_iff.mpr hreport.1, fun before hinit hbefore => ?_⟩, n, hends, rfl⟩
        exact hreport.2 (hfired.mpr ⟨before, hinit, hbefore⟩)
      · intro hdue
        obtain ⟨⟨hnow, -⟩, m, hm, rfl⟩ := hdue
        obtain rfl := spans_snoc_some hnow
        rw [hm.unique hends]
    · refine iff_of_false nofun fun hdue => ?_
      obtain ⟨⟨hnow, hfirst⟩, -⟩ := hdue
      obtain rfl := spans_snoc_some hnow
      refine hreport ⟨hends.spans_iff.mp hnow, fun hold => ?_⟩
      obtain ⟨before, hinit, hbefore⟩ := hfired.mp hold
      exact hfirst before hinit hbefore

theorem tracks_run (hmono : (samples.filterMap id).Pairwise (· ≤ ·)) :
    Tracks tickMs deadlineMs samples (run tickMs deadlineMs samples).1 := by
  induction samples using List.reverseRecOn with
  | nil =>
    refine ⟨rfl, nofun, nofun, fun before epoch hinit hspans => ?_⟩
    rw [List.prefix_nil.mp hinit] at hspans
    exact absurd hspans not_spans_nil
  | append_singleton samples running ih =>
    rw [List.filterMap_append, List.pairwise_append] at hmono
    rw [run_snoc]
    refine (ih hmono.1).step running fun epoch heq other hother => ?_
    exact hmono.2.2 other hother epoch (by simp [heq])

/-- A report is made exactly when the epoch is due for the first time. -/
theorem reports_iff_first {running : Option Nat} {elapsedMs : Nat}
    (hmono : ((samples ++ [running]).filterMap id).Pairwise (· ≤ ·)) :
    Reports tickMs deadlineMs (samples ++ [running]) epoch elapsedMs ↔
      (Spans tickMs deadlineMs (samples ++ [running]) epoch ∧
        ∀ before, before <+: samples → ¬ Spans tickMs deadlineMs before epoch) ∧
      ∃ n, EndsWith (samples ++ [running]) epoch n ∧ elapsedMs = n * tickMs := by
  rw [List.filterMap_append, List.pairwise_append] at hmono
  rw [reports_iff]
  refine (tracks_run hmono.1).step_reports running (fun epoch heq other hother => ?_) _ _
  exact hmono.2.2 other hother epoch (by simp [heq])

theorem nodup_reports (hmono : (samples.filterMap id).Pairwise (· ≤ ·)) :
    ((run tickMs deadlineMs samples).2.map Prod.fst).Nodup ∧
      ∀ epoch ∈ (run tickMs deadlineMs samples).2.map Prod.fst,
        ∃ before, before <+: samples ∧ Spans tickMs deadlineMs before epoch := by
  induction samples using List.reverseRecOn with
  | nil => exact ⟨List.nodup_nil, nofun⟩
  | append_singleton samples running ih =>
    have hbefore : (samples.filterMap id).Pairwise (· ≤ ·) := by
      rw [List.filterMap_append, List.pairwise_append] at hmono
      exact hmono.1
    obtain ⟨hnodup, hspanned⟩ := ih hbefore
    have hold : ∀ epoch ∈ (run tickMs deadlineMs samples).2.map Prod.fst,
        ∃ before, before <+: samples ++ [running] ∧ Spans tickMs deadlineMs before epoch := by
      intro epoch hepoch
      obtain ⟨before, hinit, hspans⟩ := hspanned epoch hepoch
      exact ⟨before, hinit.trans (List.prefix_append ..), hspans⟩
    rw [run_snoc]
    cases hstep : (step tickMs deadlineMs (run tickMs deadlineMs samples).1 running).2 with
    | none => simpa [hstep] using ⟨hnodup, by simpa using hold⟩
    | some report =>
      obtain ⟨⟨hnow, hfirst⟩, -⟩ := (reports_iff_first hmono).mp (reports_iff.mpr hstep)
      simp only [Option.toList_some, List.map_append, List.map_cons, List.map_nil]
      constructor
      · refine List.nodup_append.mpr ⟨hnodup, by simp, ?_⟩
        rintro epoch hepoch _ hnew rfl
        obtain ⟨before, hinit, hspans⟩ := hspanned epoch hepoch
        rw [List.mem_singleton.mp hnew] at hspans
        exact hfirst before hinit hspans
      · intro epoch hepoch
        rcases List.mem_append.mp hepoch with hepoch | hepoch
        · exact hold epoch hepoch
        · rw [List.mem_singleton.mp hepoch]
          exact ⟨_, List.prefix_rfl, hnow⟩

end Watchdog

/-! ## What a report leads to -/

def watchdogSubmissions (epoch : Nat) (trace : List Event) : List (Bytes × Answer) :=
  trace.filterMap fun
    | .submitted e .watchdog encoded answer => if e = epoch then some (encoded, answer) else none
    | _ => none

namespace Adapter

variable {encode : Completion → Except ErrorView Bytes} {definitions : List Bytes} {s s' : Adapter}

theorem watchdogSubmissions_append (epoch : Nat) (trace more : List Event) :
    watchdogSubmissions epoch (trace ++ more) =
      watchdogSubmissions epoch trace ++ watchdogSubmissions epoch more :=
  List.filterMap_append ..

theorem watchdogSubmissions_eq_nil {epoch : Nat} {trace : List Event}
    (h : ∀ encoded answer, .submitted epoch .watchdog encoded answer ∉ trace) :
    watchdogSubmissions epoch trace = [] := by
  rw [watchdogSubmissions, List.filterMap_eq_nil_iff]
  intro event hmem
  split
  · rename_i e encoded answer
    split
    · rename_i heq
      subst heq
      exact absurd hmem (h encoded answer)
    · rfl
  · rfl

/-- The trace of `s'` is that of `s` and events that are no submissions of a watchdog. -/
def Extends (s s' : Adapter) : Prop :=
  ∃ more, s'.trace = s.trace ++ more ∧
    ∀ epoch encoded answer, .submitted epoch .watchdog encoded answer ∉ more

theorem Extends.of_eq (h : s'.trace = s.trace) : Extends s s' := ⟨[], by simp [h], by simp⟩

theorem Extends.of_note {event : Event} (h : s'.trace = s.trace ++ [event])
    (hevent : ∀ epoch encoded answer, event ≠ .submitted epoch .watchdog encoded answer) :
    Extends s s' :=
  ⟨[event], h, fun epoch encoded answer hmem =>
    hevent epoch encoded answer (List.mem_singleton.mp hmem).symm⟩

theorem Extends.trans {s'' : Adapter} (h : Extends s s') (h' : Extends s' s'') : Extends s s'' := by
  obtain ⟨more, htrace, hmore⟩ := h
  obtain ⟨more', htrace', hmore'⟩ := h'
  refine ⟨more ++ more', by rw [htrace', htrace, List.append_assoc], ?_⟩
  intro epoch encoded answer hmem
  rcases List.mem_append.mp hmem with hmem | hmem
  · exact hmore epoch encoded answer hmem
  · exact hmore' epoch encoded answer hmem

theorem extends_dropRun (s : Adapter) (epoch : Nat) (runId : Bytes) :
    Extends s (s.dropRun epoch runId) := by
  rcases s.dropRun_trace epoch runId with h | h
  · exact .of_eq h
  · exact .of_note h nofun

theorem extends_acceptedPending (s : Adapter) (p : Pending) :
    Extends s (s.acceptedPending p).1 := by
  have hdrop : Extends s (({ s with pending := s.pending.filter (·.runId ≠ p.runId) } :
      Adapter).dropRun p.epoch p.runId) :=
    (Extends.of_eq rfl).trans (extends_dropRun _ _ _)
  unfold acceptedPending
  split
  · dsimp only
    split
    · exact hdrop
    · exact .of_eq rfl
  · dsimp only
    split
    · exact hdrop
    · exact .of_eq rfl

theorem extends_finishPending (s : Adapter) (p : Pending) (answer : Answer) :
    Extends s (s.finishPending p answer).1 := by
  unfold finishPending
  split
  · exact .of_eq rfl
  · split
    · exact .of_eq rfl
    · rename_i encoded _
      have hnote : Extends s (s.note (.submitted p.epoch .lane encoded answer)) :=
        .of_note rfl nofun
      dsimp only
      split
      · exact hnote.trans (extends_acceptedPending _ _)
      · split
        · exact hnote
        · exact hnote.trans (.of_eq rfl)

theorem extends_laneLostClaim (s : Adapter) (runId : Bytes) :
    Extends s (s.laneLostClaim runId).1 := by
  unfold laneLostClaim
  split
  · exact .of_eq rfl
  · split
    · exact .of_eq rfl
    · split
      · split
        · exact .of_note rfl nofun
        · exact .of_eq rfl
        · exact .of_eq rfl
      · exact .of_eq rfl

theorem extends_abandonedByWatchdog (s : Adapter) (epoch : Nat) (activation : Activation) :
    Extends s (s.abandonedByWatchdog epoch activation) := by
  unfold abandonedByWatchdog
  dsimp only
  split
  · exact (extends_dropRun _ _ _).trans (.of_eq rfl)
  · exact .of_eq rfl

theorem extends_enqueuePending (s : Adapter) (epoch : Nat) (p : Pending) :
    Extends s (s.enqueuePending epoch p) := by
  have hclaim := extends_laneLostClaim s p.runId
  unfold enqueuePending
  split
  · rename_i s₁ lost heq
    rw [heq] at hclaim
    split
    · exact hclaim.trans (extends_abandonedByWatchdog _ _ _)
    · exact hclaim
  · rename_i s₁ heq
    rw [heq] at hclaim
    split
    · exact hclaim.trans (.of_eq rfl)
    · exact hclaim.trans (.of_eq rfl)

theorem extends_execute (s : Adapter) (epoch : Nat) (activation : Activation) (answers : Answers) :
    Extends s (s.execute encode definitions epoch activation answers) := by
  unfold execute
  split
  · rename_i p work _
    refine ⟨work.built.map (.built epoch), rfl, fun epoch' encoded answer hmem => ?_⟩
    obtain ⟨completion, -, heq⟩ := List.mem_map.mp hmem
    cases heq
  · exact .of_eq rfl

/-- Only `abandon_activation` submits for a watchdog, and only with the claim. -/
theorem step_extends {l : Label} (hstep : s.step encode definitions l = some s') :
    Extends s s' ∨ ∃ w epoch flight encoded answer, s.watchdogs w = .claimed epoch ∧
      s.flights[epoch]? = some flight ∧
      encodeSubmission encode (failureCompletion flight.activation deadlineExceededError) =
        .ok encoded ∧
      s'.trace = s.trace ++ [.submitted epoch .watchdog encoded answer] := by
  cases step_cases hstep with
  | abandon hstage hflight hencoded answer =>
    exact .inr ⟨_, _, _, _, answer, hstage, hflight, hencoded, rfl⟩
  | poll _ polled answer =>
    refine .inl ?_
    unfold poll
    split
    · exact (extends_finishPending _ _ _).trans (.of_eq rfl)
    · cases polled with
      | ready => exact .of_note rfl (by simp)
      | _ => exact .of_eq rfl
  | execute => exact .inl (extends_execute _ _ _ _)
  | claim => exact .inl (extends_enqueuePending _ _ _)
  | submit | drainNext => exact .inl ((extends_finishPending _ _ _).trans (.of_eq rfl))
  | withdraw | discard | seize => exact .inl (.of_note rfl (by simp))
  | _ => exact .inl (.of_eq rfl)

/-- However `abandon_activation` is called, it submits at most once for an activation. -/
theorem watchdogSubmissions_le_one (hs : (workerSystem encode definitions).Reachable s)
    (epoch : Nat) : (watchdogSubmissions epoch s.trace).length ≤ 1 := by
  induction hs with
  | start h =>
    rw [h]
    exact Nat.zero_le _
  | step l hs hstep ih =>
    rcases step_extends hstep with
      ⟨more, htrace, hmore⟩ | ⟨w, e, flight, encoded, answer, hstage, -, -, htrace⟩
    · rw [htrace, watchdogSubmissions_append, watchdogSubmissions_eq_nil (hmore epoch),
        List.append_nil]
      exact ih
    · rw [htrace, watchdogSubmissions_append]
      by_cases hepoch : e = epoch
      · subst hepoch
        have hguarded := (kept_of_reachable hs).core.guarded w
        rw [hstage] at hguarded
        rw [watchdogSubmissions_eq_nil (hguarded.2 .watchdog)]
        simp [watchdogSubmissions]
      · have hnone : watchdogSubmissions epoch [.submitted e .watchdog encoded answer] = [] := by
          simp [watchdogSubmissions, hepoch]
        rw [hnone, List.append_nil]
        exact ih

theorem watchdog_submits_failure (hs : (workerSystem encode definitions).Reachable s) {epoch : Nat}
    {encoded : Bytes} {answer : Answer}
    (hmem : .submitted epoch .watchdog encoded answer ∈ s.trace) :
    ∃ activation, .polled epoch activation ∈ s.trace ∧
      encodeSubmission encode (failureCompletion activation deadlineExceededError) =
        .ok encoded := by
  induction hs with
  | start h =>
    rw [h] at hmem
    cases hmem
  | step l hs hstep ih =>
    rcases step_extends hstep with
      ⟨more, htrace, hmore⟩ | ⟨w, e, flight, encoded', answer', -, hflight, hencoded, htrace⟩
    · rw [htrace] at hmem ⊢
      rcases List.mem_append.mp hmem with hmem | hmem
      · obtain ⟨activation, hpolled, hencoded⟩ := ih hmem
        exact ⟨activation, List.mem_append_left _ hpolled, hencoded⟩
      · exact absurd hmem (hmore _ _ _)
    · rw [htrace] at hmem ⊢
      rcases List.mem_append.mp hmem with hmem | hmem
      · obtain ⟨activation, hpolled, hencoded⟩ := ih hmem
        exact ⟨activation, List.mem_append_left _ hpolled, hencoded⟩
      · cases List.mem_singleton.mp hmem
        exact ⟨flight.activation, List.mem_append_left _
          ((kept_of_reachable hs).core.flown epoch flight hflight).1, hencoded⟩

end Adapter

/-- **The watchdog.** For any samples whose epochs do not decrease: an epoch is reported at most
once, exactly at the first sample at which it has been seen in consecutive samples that span the
deadline, and the time reported is that since the last interruption. In every run of lane and
watchdogs, `abandon_activation` submits at most one completion for an epoch, the failure of its
activation, and then the lane has not claimed the activation and never does. -/
theorem watchdog_reports_once {tickMs deadlineMs : Nat} {samples : List (Option Nat)}
    (hmono : (samples.filterMap id).Pairwise (· ≤ ·))
    {encode : Completion → Except ErrorView Bytes} {definitions : List Bytes} {s : Adapter}
    (hs : (workerSystem encode definitions).Reachable s) :
    ((Watchdog.run tickMs deadlineMs samples).2.map Prod.fst).Nodup ∧
      (∀ before running, before ++ [running] <+: samples → ∀ epoch elapsedMs,
        Watchdog.Reports tickMs deadlineMs (before ++ [running]) epoch elapsedMs ↔
          (Watchdog.Spans tickMs deadlineMs (before ++ [running]) epoch ∧
            ∀ earlier, earlier <+: before → ¬ Watchdog.Spans tickMs deadlineMs earlier epoch) ∧
          ∃ n, Watchdog.EndsWith (before ++ [running]) epoch n ∧ elapsedMs = n * tickMs) ∧
      (∀ epoch, (watchdogSubmissions epoch s.trace).length ≤ 1) ∧
      ∀ epoch encoded answer, .submitted epoch .watchdog encoded answer ∈ s.trace →
        (∃ activation, .polled epoch activation ∈ s.trace ∧
          encodeSubmission encode (failureCompletion activation deadlineExceededError) =
            .ok encoded) ∧
        .claimed epoch .watchdog ∈ s.trace ∧ .claimed epoch .lane ∉ s.trace := by
  refine ⟨(Watchdog.nodup_reports hmono).1, fun before running hinit epoch elapsedMs => ?_,
    Adapter.watchdogSubmissions_le_one hs, fun epoch encoded answer hmem => ?_⟩
  · obtain ⟨rest, rfl⟩ := hinit
    rw [List.filterMap_append, List.pairwise_append] at hmono
    exact Watchdog.reports_iff_first hmono.1
  · have hallowed := (Adapter.kept_of_reachable hs).core.allowed
    have hclaimed := claimed_of_submitted hallowed hmem
    exact ⟨Adapter.watchdog_submits_failure hs hmem, hclaimed,
      fun hlane => nomatch claimed_unique hallowed hclaimed hlane⟩

/-- An activation that is seen for three ticks, is interrupted, and is then seen for four. -/
def stuckSamples : List (Option Nat) :=
  [some 0, some 1, some 1, some 1, none, some 1, some 1, some 1,
  some 1, some 1, some 2]

theorem watchdog_reports_once_stuck :
    (Watchdog.run 5 15 stuckSamples).2 = [(1, 15)] ∧
      watchdogSubmissions 1 claimedByBoth.trace = [([2], .accepted)] ∧
      ((Watchdog.run 5 15 stuckSamples).2.map Prod.fst).Nodup ∧
      ∀ epoch, (watchdogSubmissions epoch claimedByBoth.trace).length ≤ 1 :=
  have hs : (workerSystem anyEncoder [[1]]).Reachable claimedByBoth :=
    (Lib.Transitions.Reachable.start (T := workerSystem anyEncoder [[1]]) rfl).replay
      (Option.some_get _).symm
  have h := watchdog_reports_once (show (stuckSamples.filterMap id).Pairwise (· ≤ ·) by decide) hs
  ⟨by decide, by rfl, h.1, h.2.2.1⟩

end OcamlTemporal.Worker
