import Mathlib
import OcamlTemporal.Lib.History
import OcamlTemporal.Worker.Shutdown

/-!
# OcamlTemporal.Sound.WorkerShutdown

**One release, after the drains.** `Point.Known` is what the calls made so far have established when
the thread is at a point; every step carries it to the next point, whatever the operations answer.
The caller adds nothing to it: an outcome with a completed teardown is what the thread has
published.
-/

namespace OcamlTemporal.Worker.Shutdown

/-! ## Reading the calls -/

section

variable {X ε T : Type}

namespace Call

def isAcquired : Call X ε T → Bool
  | tryAcquireLanes (.ok true) => true
  | _ => false

def isFree : Call X ε T → Bool
  | releaseLanes _ => true
  | _ => false

def isRelease : Call X ε T → Bool
  | release _ => true
  | _ => false

def workflow? : Call X ε T → Option (Except X (Drain ε))
  | drainWorkflow answer => some answer
  | _ => none

def activity? : Call X ε T → Option (Except X (Drain ε))
  | drainActivity answer => some answer
  | _ => none

def leases? : Call X ε T → Option (Except X Int)
  | outstandingAsyncLeases answer => some answer
  | _ => none

end Call

def last {α : Type} (f : Call X ε T → Option α) (calls : List (Call X ε T)) : Option α :=
  (calls.filterMap f).getLast?

theorem last_append {α : Type} (f : Call X ε T → Option α) (calls more : List (Call X ε T)) :
    last f (calls ++ more) = (last f more).or (last f calls) := by
  rw [last, List.filterMap_append, List.getLast?_append]
  rfl

def acquisitions (calls : List (Call X ε T)) : Nat := calls.countP Call.isAcquired

def frees (calls : List (Call X ε T)) : Nat := calls.countP Call.isFree

def releases (calls : List (Call X ε T)) : Nat := calls.countP Call.isRelease

theorem acquisitions_append (calls more : List (Call X ε T)) :
    acquisitions (calls ++ more) = acquisitions calls + acquisitions more := List.countP_append

theorem frees_append (calls more : List (Call X ε T)) :
    frees (calls ++ more) = frees calls + frees more := List.countP_append

theorem releases_append (calls more : List (Call X ε T)) :
    releases (calls ++ more) = releases calls + releases more := List.countP_append

def Drain.failed : Drain ε → Bool
  | drainFailed _ _ => true
  | _ => false

theorem firstDrainFailure_eq_none {workflow activity : Drain ε}
    (h : firstDrainFailure workflow activity = none) :
    workflow.failed = false ∧ activity.failed = false := by
  cases workflow <;> cases activity <;> first | exact ⟨rfl, rfl⟩ | cases h

/-- The lock was taken and given back this often, and nothing is released yet. -/
structure Book (calls : List (Call X ε T)) (taken freed : Nat) : Prop where
  taken : acquisitions calls = taken
  freed : frees calls = freed
  release : releases calls = 0

/-- Calls that take and free as often as said, and do not release. -/
theorem Book.append {calls more : List (Call X ε T)} {taken freed taken' freed' : Nat}
    (h : Book calls taken freed) (hmore : Book more taken' freed') :
    Book (calls ++ more) (taken + taken') (freed + freed') where
  taken := by rw [acquisitions_append, h.taken, hmore.taken]
  freed := by rw [frees_append, h.freed, hmore.freed]
  release := by rw [releases_append, h.release, hmore.release]

variable (errors : Errors X ε)

/-- What `drain_until` made of the last answer of a drain. -/
def result (answer : Option (Except X (Drain ε))) : Option (Drain ε) :=
  answer.map (Drain.caught errors)

/-- What is known of the results with which the drains end. -/
structure Settled (calls : List (Call X ε T)) (workflow activity : Drain ε) : Prop where
  first : result errors (last Call.workflow? calls) = some workflow
  second : ∃ drain, result errors (last Call.activity? calls) = some drain ∧
    (activity.failed = false → drain.failed = false)
  leases : activity.failed = false → ∀ n, last Call.leases? calls = some (.ok n) → n ≤ 0

/-- Calls that are no drains and ask for no leases keep what is settled. -/
theorem Settled.append {calls more : List (Call X ε T)} {workflow activity : Drain ε}
    (h : Settled errors calls workflow activity) (hw : last Call.workflow? more = none)
    (ha : last Call.activity? more = none) (hl : last Call.leases? more = none) :
    Settled errors (calls ++ more) workflow activity := by
  refine ⟨?_, ?_, ?_⟩
  · rw [last_append, hw]
    exact h.first
  · rw [last_append, ha]
    exact h.second
  · rw [last_append, hl]
    exact h.leases

/-- Both drains have ended and the lock is free. -/
structure Ready (calls : List (Call X ε T)) (failure : Option ε) : Prop where
  book : ∃ taken ≤ 1, Book calls taken taken
  settled : ∃ workflow activity, Settled errors calls workflow activity ∧
    failure = firstDrainFailure workflow activity

/-- The sequence has ended so. -/
def Finished (calls : List (Call X ε T)) (lanes : Lanes) (final : Final ε) : Prop :=
  ∃ before answer failure, calls = before ++ [.release answer] ∧ Ready errors before failure ∧
    final = finalOf lanes failure answer

/-- What the calls have established when the thread is at a point. -/
def Point.Known (calls : List (Call X ε T)) : Point ε → Prop
  | .stopPolling => calls = []
  | .acquireLanes => Book calls 0 0 ∧ last Call.leases? calls = none
  | .drainWorkflow acquired => Book calls acquired.toNat 0 ∧ last Call.leases? calls = none
  | .drainActivity acquired workflow =>
    Book calls acquired.toNat 0 ∧ last Call.leases? calls = none ∧
      result errors (last Call.workflow? calls) = some workflow
  | .releaseLanes workflow activity =>
    Book calls 1 0 ∧ last Call.leases? calls = none ∧
      result errors (last Call.workflow? calls) = some workflow ∧
      result errors (last Call.activity? calls) = some activity
  | .awaitAsyncLeases acquired workflow =>
    Book calls acquired.toNat acquired.toNat ∧
      result errors (last Call.workflow? calls) = some workflow ∧
      result errors (last Call.activity? calls) = some .busy
  | .probeActivity drains | .probeWorkflow drains _ | .probeDetached drains _ _ =>
    Book calls drains.acquired.toNat drains.acquired.toNat ∧
      Settled errors calls drains.workflow drains.activity
  | .publish _ failure | .release _ failure => Ready errors calls failure
  | .finish lanes final => Finished errors calls lanes final
  | .ended => ∃ lanes final, Finished errors calls lanes final

end

/-! ## Steps of the thread -/

section

variable {X ε T : Type} [Add T] [OfScientific T] [LT T] [DecidableLT T] [LE T] [DecidableLE T]
  {config : Config X ε T} {calls : List (Call X ε T)}

theorem isBusy_iff {d : Drain ε} : d.isBusy = true ↔ d = .busy := by
  cases d <;> simp [Drain.isBusy]

omit [Add T] [OfScientific T] [LT T] [DecidableLT T] [LE T] [DecidableLE T] in
/-- Where the thread goes once the lock is free. -/
theorem known_afterDrains {acquired : Bool} {workflow activity : Drain ε}
    (hbook : Book calls acquired.toNat acquired.toNat) (hl : last Call.leases? calls = none)
    (hw : result config.errors (last Call.workflow? calls) = some workflow)
    (ha : result config.errors (last Call.activity? calls) = some activity) :
    (afterDrains acquired workflow activity).Known config.errors calls := by
  unfold afterDrains
  split_ifs with hbusy
  · exact ⟨hbook, hw, isBusy_iff.mp hbusy ▸ ha⟩
  · refine ⟨hbook, hw, ⟨activity, ha, id⟩, fun _ n hn => ?_⟩
    rw [hl] at hn
    cases hn

omit [Add T] [OfScientific T] [LT T] [DecidableLT T] [LE T] [DecidableLE T] in
theorem known_afterActivity {acquired : Bool} {workflow activity : Drain ε}
    (hbook : Book calls acquired.toNat 0) (hl : last Call.leases? calls = none)
    (hw : result config.errors (last Call.workflow? calls) = some workflow)
    (ha : result config.errors (last Call.activity? calls) = some activity) :
    (afterActivity acquired workflow activity).Known config.errors calls := by
  cases acquired with
  | true => exact ⟨hbook, hl, hw, ha⟩
  | false => exact known_afterDrains hbook hl hw ha

omit [LE T] [DecidableLE T] in
/-- A round of a drain makes one call of it, and reads the clock or not. -/
theorem drainUntil_cases (config : Config X ε T) (now : T) (call : Except X (Drain ε) → Call X ε T)
    (answer : Except X (Drain ε)) :
    ((drainUntil config now call answer).1 = [call answer, .now now] ∨
        (drainUntil config now call answer).1 = [call answer]) ∧
      ((drainUntil config now call answer).2 = none ∨
        (drainUntil config now call answer).2 = some (Drain.caught config.errors answer)) := by
  simp only [drainUntil]
  split_ifs with hretry hnow
  · exact ⟨.inl rfl, .inl rfl⟩
  · exact ⟨.inl rfl, .inr rfl⟩
  · exact ⟨.inr rfl, .inr rfl⟩

theorem known_drainWorkflow {acquired : Bool} {answers : Answers X ε T}
    (h : (Point.drainWorkflow acquired).Known config.errors calls) :
    ((Point.drainWorkflow acquired).next config answers).2.Known config.errors
      (calls ++ ((Point.drainWorkflow acquired).next config answers).1) := by
  obtain ⟨hbook, hl⟩ := h
  obtain ⟨hcalls, hend⟩ :=
    drainUntil_cases config answers.now .drainWorkflow answers.drainWorkflow
  simp only [Point.next]
  generalize drainUntil config answers.now .drainWorkflow answers.drainWorkflow =
    round at hcalls hend
  obtain ⟨more, ended⟩ := round
  have hnext : Book (calls ++ more) acquired.toNat 0 ∧ last Call.leases? (calls ++ more) = none ∧
      last Call.workflow? (calls ++ more) = some answers.drainWorkflow := by
    rcases hcalls with rfl | rfl <;>
      exact ⟨hbook.append ⟨rfl, rfl, rfl⟩, (last_append ..).trans hl, last_append ..⟩
  rcases hend with rfl | rfl
  · exact ⟨hnext.1, hnext.2.1⟩
  · exact ⟨hnext.1, hnext.2.1, congrArg (result config.errors) hnext.2.2⟩

theorem known_drainActivity {acquired : Bool} {workflow : Drain ε} {answers : Answers X ε T}
    (h : (Point.drainActivity acquired workflow).Known config.errors calls) :
    ((Point.drainActivity acquired workflow).next config answers).2.Known config.errors
      (calls ++ ((Point.drainActivity acquired workflow).next config answers).1) := by
  obtain ⟨hbook, hl, hw⟩ := h
  obtain ⟨hcalls, hend⟩ :=
    drainUntil_cases config answers.now .drainActivity answers.drainActivity
  simp only [Point.next]
  generalize drainUntil config answers.now .drainActivity answers.drainActivity =
    round at hcalls hend
  obtain ⟨more, ended⟩ := round
  have hnext : Book (calls ++ more) acquired.toNat 0 ∧ last Call.leases? (calls ++ more) = none ∧
      last Call.workflow? (calls ++ more) = last Call.workflow? calls ∧
      last Call.activity? (calls ++ more) = some answers.drainActivity := by
    rcases hcalls with rfl | rfl <;>
      exact ⟨hbook.append ⟨rfl, rfl, rfl⟩, (last_append ..).trans hl, last_append ..,
        last_append ..⟩
  obtain ⟨hbook', hl', hwork, hact⟩ := hnext
  rw [← hwork] at hw
  rcases hend with rfl | rfl
  · exact ⟨hbook', hl', hw⟩
  · exact known_afterActivity hbook' hl' hw (congrArg (result config.errors) hact)

theorem known_awaitAsyncLeases {acquired : Bool} {workflow : Drain ε} {answers : Answers X ε T}
    (h : (Point.awaitAsyncLeases acquired workflow).Known config.errors calls) :
    ((Point.awaitAsyncLeases acquired workflow).next config answers).2.Known config.errors
      (calls ++ ((Point.awaitAsyncLeases acquired workflow).next config answers).1) := by
  obtain ⟨hbook, hw, ha⟩ := h
  simp only [Point.next]
  split_ifs with hzero hlate
  · refine ⟨hbook.append ⟨rfl, rfl, rfl⟩, ?_, ⟨.busy, ?_, fun _ => rfl⟩, fun _ n hn => ?_⟩
    · rw [last_append]
      exact hw
    · rw [last_append]
      exact ha
    · rw [last_append] at hn
      have hanswer : answers.outstandingAsyncLeases = .ok n := Option.some.inj hn
      rwa [hanswer] at hzero
  · refine ⟨hbook.append ⟨rfl, rfl, rfl⟩, ?_, ⟨.busy, ?_, fun _ => rfl⟩, fun hf => (by cases hf)⟩
    · rw [last_append]
      exact hw
    · rw [last_append]
      exact ha
  · refine ⟨hbook.append ⟨rfl, rfl, rfl⟩, ?_, ?_⟩
    · rw [last_append]
      exact hw
    · rw [last_append]
      exact ha

omit [Add T] [OfScientific T] [LT T] [DecidableLT T] [LE T] [DecidableLE T] in
/-- An attempt takes the lock if it is told so. -/
theorem acquisitions_tryAcquire {answer : Except X Bool} {n : Nat} {more : List (Call X ε T)}
    (h : probe false answer = true ∧ n = acquisitions more + 1 ∨
      ¬ probe false answer = true ∧ n = acquisitions more) :
    acquisitions (.tryAcquireLanes answer :: more) = n := by
  have hcall : (Call.tryAcquireLanes answer : Call X ε T).isAcquired = probe false answer := by
    cases answer with
    | error x => rfl
    | ok got =>
      cases got with
      | true => rfl
      | false => rfl
  rw [acquisitions, List.countP_cons, hcall]
  rcases h with ⟨hgot, rfl⟩ | ⟨hgot, rfl⟩
  · rw [if_pos hgot]
    rfl
  · rw [if_neg hgot]
    rfl

/-- **Step lemma.** Whatever the operations answer, what is known at a point leads to what is known
at the next. -/
theorem Point.Known.next {point : Point ε} (h : point.Known config.errors calls)
    (answers : Answers X ε T) :
    (point.next config answers).2.Known config.errors (calls ++ (point.next config answers).1) := by
  cases point with
  | stopPolling =>
    subst h
    exact ⟨⟨rfl, rfl, rfl⟩, rfl⟩
  | acquireLanes =>
    obtain ⟨hbook, hl⟩ := h
    simp only [Point.next]
    split_ifs with hgot hlate
    · have hmore : Book [(Call.tryAcquireLanes answers.tryAcquireLanes : Call X ε T)] 1 0 :=
        ⟨acquisitions_tryAcquire (.inl ⟨hgot, rfl⟩), rfl, rfl⟩
      exact ⟨hbook.append hmore, by rw [last_append, hl]; rfl⟩
    all_goals
      have hmore : Book [(Call.tryAcquireLanes answers.tryAcquireLanes : Call X ε T),
          .now answers.now] 0 0 :=
        ⟨acquisitions_tryAcquire (.inr ⟨hgot, rfl⟩), rfl, rfl⟩
      exact ⟨hbook.append hmore, by rw [last_append, hl]; rfl⟩
  | drainWorkflow acquired => exact known_drainWorkflow h
  | drainActivity acquired workflow => exact known_drainActivity h
  | releaseLanes workflow activity =>
    obtain ⟨hbook, hl, hw, ha⟩ := h
    refine known_afterDrains (hbook.append ⟨rfl, rfl, rfl⟩) ?_ ?_ ?_
    · rw [last_append, hl]
      rfl
    · rw [last_append]
      exact hw
    · rw [last_append]
      exact ha
  | awaitAsyncLeases acquired workflow => exact known_awaitAsyncLeases h
  | probeActivity | probeWorkflow =>
    obtain ⟨hbook, hsettled⟩ := h
    simp only [Point.next]
    split_ifs
    all_goals exact ⟨hbook.append ⟨rfl, rfl, rfl⟩, hsettled.append _ rfl rfl rfl⟩
  | probeDetached drains activityCallbacks workflowActivations =>
    obtain ⟨hbook, hsettled⟩ := h
    simp only [Point.next]
    split_ifs
    all_goals
      exact ⟨⟨_, Bool.toNat_le _, hbook.append ⟨rfl, rfl, rfl⟩⟩,
        _, _, hsettled.append _ rfl rfl rfl, rfl⟩
  | publish lanes failure =>
    obtain ⟨⟨taken, hle, hbook⟩, workflow, activity, hsettled, hfailure⟩ := h
    exact ⟨⟨taken, hle, hbook.append ⟨rfl, rfl, rfl⟩⟩,
      workflow, activity, hsettled.append _ rfl rfl rfl, hfailure⟩
  | release lanes failure => exact ⟨calls, answers.release, failure, rfl, h, rfl⟩
  | finish lanes final => exact ⟨lanes, final, by rwa [Point.next, List.append_nil]⟩
  | ended =>
    obtain ⟨lanes, final, h⟩ := h
    exact ⟨lanes, final, by rwa [Point.next, List.append_nil]⟩

/-- How many steps the thread is from its end at most, once the clock has passed. -/
def Point.rank : Point ε → Nat
  | .stopPolling => 12
  | .acquireLanes => 11
  | .drainWorkflow _ => 10
  | .drainActivity _ _ => 9
  | .releaseLanes _ _ => 8
  | .awaitAsyncLeases _ _ => 7
  | .probeActivity _ => 6
  | .probeWorkflow _ _ => 5
  | .probeDetached _ _ _ => 4
  | .publish _ _ => 3
  | .release _ _ => 2
  | .finish _ _ => 1
  | .ended => 0

/-- A reading that is not before the time at which the thread gives up. -/
def Config.Passed (config : Config X ε T) (t : T) : Prop := config.giveUp ≤ t ∧ ¬ t < config.giveUp

omit [DecidableLE T] in
theorem drainUntil_passed {now : T} (hnow : config.Passed now)
    (call : Except X (Drain ε) → Call X ε T) (answer : Except X (Drain ε)) :
    (drainUntil config now call answer).2 = some (Drain.caught config.errors answer) := by
  simp only [drainUntil]
  split_ifs with hretry hlt
  · exact absurd hlt hnow.2
  · rfl
  · rfl

theorem rank_afterDrains (acquired : Bool) (workflow activity : Drain ε) :
    (afterDrains acquired workflow activity).rank < 8 := by
  unfold afterDrains
  split_ifs
  · exact Nat.lt_succ_self 7
  · exact (by decide : 6 < 8)

theorem rank_afterActivity (acquired : Bool) (workflow activity : Drain ε) :
    (afterActivity acquired workflow activity).rank < 9 := by
  unfold afterActivity
  split_ifs
  · exact Nat.lt_succ_self 8
  · exact Nat.lt_succ_of_lt (rank_afterDrains _ _ _)

/-- Once the clock has passed, every step comes nearer to the end. -/
theorem rank_next {point : Point ε} {answers : Answers X ε T} (hnow : config.Passed answers.now)
    (hpoint : point.rank ≠ 0) : (point.next config answers).2.rank < point.rank := by
  cases point with
  | acquireLanes =>
    simp only [Point.next]
    split_ifs with hgot hlate
    · exact Nat.lt_succ_self 10
    · exact Nat.lt_succ_self 10
    · exact absurd hnow.1 hlate
  | drainWorkflow acquired =>
    have hend := drainUntil_passed hnow .drainWorkflow answers.drainWorkflow
    simp only [Point.next]
    generalize drainUntil config answers.now .drainWorkflow answers.drainWorkflow = round at hend
    obtain ⟨more, ended⟩ := round
    subst hend
    exact Nat.lt_succ_self 9
  | drainActivity acquired workflow =>
    have hend := drainUntil_passed hnow .drainActivity answers.drainActivity
    simp only [Point.next]
    generalize drainUntil config answers.now .drainActivity answers.drainActivity = round at hend
    obtain ⟨more, ended⟩ := round
    subst hend
    exact rank_afterActivity _ _ _
  | releaseLanes workflow activity => exact rank_afterDrains _ _ _
  | awaitAsyncLeases acquired workflow =>
    simp only [Point.next]
    split_ifs with hzero hlate
    · exact Nat.lt_succ_self 6
    · exact Nat.lt_succ_self 6
    · exact absurd hnow.1 hlate
  | probeActivity | probeWorkflow | probeDetached =>
    simp only [Point.next]
    split_ifs
    all_goals exact Nat.lt_succ_self _
  | stopPolling | publish | release | finish => exact Nat.lt_succ_self _
  | ended => exact absurd rfl hpoint

end

/-! ## Runs -/

section

variable {X ε T : Type} {config : Config X ε T}

/-- What the caller relies on: the thread is not created before it asks for it, and an
outcome with a completed teardown is the one that was published. -/
def CallerOk (thread : Option (Point ε)) (published : Option (Lanes × Final ε)) :
    Caller ε T → Prop
  | .starting | .creating _ _ => thread = none
  | .inline _ _ | .waiting _ _ | .reporting _ .detached _ _ => True
  | .reporting _ .completed lanes final => published = some (lanes, final)
  | .returned outcome =>
    (∃ elapsed lanes final, outcome = outcomeOf elapsed .detached lanes final) ∨
      ∃ elapsed lanes final, outcome = outcomeOf elapsed .completed lanes final ∧
        published = some (lanes, final)

/-- What holds of the two threads and what they share. -/
structure Inv (config : Config X ε T) (s : State X ε T) : Prop where
  unstarted : s.thread = none → s.calls = [] ∧ s.progress.final = none
  known : ∀ point, s.thread = some point → point.Known config.errors s.calls
  -- only the last write of the thread sets the final result
  published : ∀ lanes final, s.progress.final = some (lanes, final) →
    s.thread = some .ended ∧ Finished config.errors s.calls lanes final
  caller : CallerOk s.thread s.progress.final s.caller

theorem inv_initial : Inv config State.initial where
  unstarted _ := ⟨rfl, rfl⟩
  known _ h := by cases h
  published _ _ h := by cases h
  caller := rfl

/-- A thread that is running has published nothing yet. -/
theorem CallerOk.thread {point point' : Point ε} {published : Option (Lanes × Final ε)}
    {caller : Caller ε T} (h : CallerOk (some point) none caller) :
    CallerOk (some point') published caller := by
  cases caller with
  | starting | creating => cases h
  | inline | waiting => trivial
  | reporting started teardown lanes final =>
    cases teardown with
    | detached => trivial
    | completed => cases h
  | returned outcome =>
    rcases h with hdetached | ⟨elapsed, lanes, final, -, hfinal⟩
    · exact .inl hdetached
    · cases hfinal

theorem written_final (progress : Progress ε T) (now : T) (point : Point ε) :
    (progress.written now point).final = progress.final ∨
      ∃ lanes final, point = .finish lanes final ∧
        (progress.written now point).final = some (lanes, final) := by
  cases point with
  | finish lanes final => exact .inr ⟨lanes, final, rfl, rfl⟩
  | _ => exact .inl rfl

end

section

variable {X ε T : Type} [Add T] [Sub T] [Max T] [Min T] [OfScientific T] [LT T] [DecidableLT T]
  [LE T] [DecidableLE T] {config : Config X ε T} {s s' : State X ε T}

theorem step_thread {answers : Answers X ε T} (h : s.step config (.thread answers) = some s') :
    ∃ point, s.thread = some point ∧ point.rank ≠ 0 ∧
      s' = { s with
        thread := some (point.next config answers).2
        progress := s.progress.written answers.now point
        calls := s.calls ++ (point.next config answers).1 } := by
  unfold State.step at h
  cases hthread : s.thread with
  | none => simp only [hthread] at h; cases h
  | some point =>
    simp only [hthread] at h
    cases point with
    | ended => cases h
    | _ => exact ⟨_, rfl, by simp only [Point.rank, ne_eq, OfNat.ofNat_ne_zero, one_ne_zero,
        not_false_eq_true], (Option.some.inj h).symm⟩

theorem Inv.thread {answers : Answers X ε T} (h : Inv config s)
    (hstep : s.step config (.thread answers) = some s') : Inv config s' := by
  obtain ⟨point, hthread, hrank, rfl⟩ := step_thread hstep
  have hnone : s.progress.final = none := by
    by_contra hsome
    obtain ⟨⟨lanes, final⟩, hfinal⟩ := Option.ne_none_iff_exists'.mp hsome
    have hended := (h.published lanes final hfinal).1
    rw [hthread, Option.some.injEq] at hended
    exact hrank (by rw [hended]; rfl)
  have hknown := (h.known point hthread).next answers
  refine ⟨nofun, fun point' hpoint => ?_, fun lanes final hfinal => ?_, ?_⟩
  · obtain rfl := Option.some.inj hpoint
    exact hknown
  · rcases written_final s.progress answers.now point with hsame | ⟨lanes', final', rfl, hwrite⟩
    · rw [hsame, hnone] at hfinal
      cases hfinal
    · rw [hwrite, Option.some.injEq, Prod.mk.injEq] at hfinal
      obtain ⟨rfl, rfl⟩ := hfinal
      refine ⟨rfl, ?_⟩
      have hfinished := h.known _ hthread
      rwa [Point.next, List.append_nil]
  · have hcaller := h.caller
    rw [hthread, hnone] at hcaller
    exact hcaller.thread

theorem Inv.caller_step {answers : Answers X ε T} (h : Inv config s)
    (hstep : s.step config (.caller answers) = some s') : Inv config s' := by
  obtain ⟨caller, hnext, rfl⟩ := Option.map_eq_some_iff.mp hstep
  refine { h with caller := ?_ }
  have hcaller := h.caller
  generalize s.caller = current at hnext hcaller
  cases current with
  | starting =>
    obtain rfl := Option.some.inj hnext
    exact hcaller
  | creating | returned => cases hnext
  | inline started hardDeadline =>
    simp only [Caller.next] at hnext
    split at hnext
    · obtain rfl := Option.some.inj hnext
      trivial
    · cases hnext
  | waiting started hardDeadline =>
    simp only [Caller.next] at hnext
    split at hnext
    · next hfinal =>
      obtain rfl := Option.some.inj hnext
      exact hfinal
    · split_ifs at hnext
      all_goals
        obtain rfl := Option.some.inj hnext
        trivial
  | reporting started teardown lanes final =>
    obtain rfl := Option.some.inj hnext
    cases teardown with
    | detached => exact .inl ⟨_, _, _, rfl⟩
    | completed => exact .inr ⟨_, _, _, rfl, hcaller⟩

theorem Inv.create {threaded : Bool} (h : Inv config s)
    (hstep : s.step config (.create threaded) = some s') : Inv config s' := by
  unfold State.step at hstep
  cases hcaller : s.caller with
  | creating started hardDeadline =>
    simp only [hcaller] at hstep
    obtain rfl := Option.some.inj hstep
    have hthread : CallerOk s.thread s.progress.final (.creating started hardDeadline) :=
      hcaller ▸ h.caller
    obtain ⟨hcalls, hfinal⟩ := h.unstarted hthread
    refine ⟨nofun, fun point hpoint => ?_, fun lanes final hf => ?_, ?_⟩
    · obtain rfl := Option.some.inj hpoint
      exact hcalls
    · rw [hfinal] at hf
      cases hf
    · cases threaded <;> trivial
  | _ =>
    simp only [hcaller] at hstep
    cases hstep

theorem reachable_inv (hs : (system config).Reachable s) : Inv config s := by
  refine hs.invariant (fun s hstart => ?_) (fun l s s' _ h hstep => ?_)
  · rw [show s = State.initial from hstart]
    exact inv_initial
  · cases l with
    | thread answers => exact h.thread hstep
    | caller answers => exact h.caller_step hstep
    | create threaded => exact h.create hstep

theorem step_enabled (config : Config X ε T) {point : Point ε} (hthread : s.thread = some point)
    (hpoint : point.rank ≠ 0)
    (answers : Answers X ε T) :
    ∃ s', s.step config (.thread answers) = some s' ∧
      s'.thread = some (point.next config answers).2 := by
  unfold State.step
  simp only [hthread]
  cases point with
  | ended => exact absurd rfl hpoint
  | _ => exact ⟨_, rfl, rfl⟩

/-- Once the clock has passed, the thread ends, whatever the operations answer. -/
theorem ends_once_passed {point : Point ε} (hthread : s.thread = some point)
    (answers : List (Answers X ε T)) (hnow : ∀ a ∈ answers, config.Passed a.now)
    (hlength : point.rank ≤ answers.length) :
    ∃ taken s', taken <+: answers ∧ (system config).replay (taken.map .thread) s = some s' ∧
      s'.thread = some .ended := by
  induction answers generalizing s point with
  | nil =>
    have hrank : point.rank = 0 := Nat.le_zero.mp hlength
    have hended : point = .ended := by
      cases point with
      | ended => rfl
      | _ => cases hrank
    exact ⟨[], s, List.prefix_rfl, rfl, hended ▸ hthread⟩
  | cons a answers ih =>
    by_cases hpoint : point.rank = 0
    · have hended : point = .ended := by
        cases point with
        | ended => rfl
        | _ => cases hpoint
      exact ⟨[], s, List.nil_prefix, rfl, hended ▸ hthread⟩
    · obtain ⟨m, hm, hmthread⟩ := step_enabled config hthread hpoint a
      have hless := rank_next (hnow a List.mem_cons_self) hpoint
      obtain ⟨taken, s', htaken, hrun, hs'⟩ := ih hmthread
        (fun b hb => hnow b (List.mem_cons_of_mem a hb))
          (by rw [List.length_cons] at hlength; omega)
      refine ⟨a :: taken, s', List.cons_prefix_cons.mpr ⟨rfl, htaken⟩, ?_, hs'⟩
      rw [List.map_cons, Lib.Transitions.replay]
      exact Option.bind_eq_some_iff.mpr ⟨m, hm, hrun⟩

end

section

variable {X ε T : Type} {errors : Errors X ε} {calls : List (Call X ε T)}

/-- The lock was taken at most once, and given back no more often than it was taken. -/
structure Locked (calls : List (Call X ε T)) : Prop where
  frees : frees calls ≤ acquisitions calls
  acquisitions : acquisitions calls ≤ 1

theorem Book.locked {taken freed : Nat} (h : Book calls taken freed) (hfreed : freed ≤ taken)
    (htaken : taken ≤ 1) : Locked calls :=
  ⟨by rw [h.freed, h.taken]; exact hfreed, by rw [h.taken]; exact htaken⟩

/-- A call of the release is the last one, and it stands after both drains. -/
theorem Finished.split {lanes : Lanes} {final : Final ε} (h : Finished errors calls lanes final)
    {before after : List (Call X ε T)} {answer : Except X (Release ε)}
    (hcalls : calls = before ++ .release answer :: after) :
    after = [] ∧ ∃ failure, Ready errors before failure ∧ final = finalOf lanes failure answer := by
  obtain ⟨before', answer', failure, rfl, hready, hfinal⟩ := h
  obtain ⟨taken, -, hbook⟩ := hready.book
  rcases Lib.split_snoc hcalls with ⟨rest, hbefore, -⟩ | ⟨rfl, hanswer, rfl⟩
  · have hcount := hbook.release
    rw [hbefore, releases, List.countP_append, List.countP_cons_of_pos rfl] at hcount
    omega
  · obtain rfl := Call.release.inj hanswer
    exact ⟨rfl, failure, hready, hfinal⟩

theorem Finished.releases {lanes : Lanes} {final : Final ε}
    (h : Finished errors calls lanes final) : releases calls = 1 ∧ Locked calls := by
  obtain ⟨before, answer, failure, rfl, hready, -⟩ := h
  obtain ⟨taken, hle, hbook⟩ := hready.book
  refine ⟨by rw [releases_append, hbook.release]; rfl, ?_, ?_⟩
  · rw [frees_append, acquisitions_append, hbook.freed, hbook.taken]
    exact Nat.le_refl taken
  · rw [acquisitions_append, hbook.taken]
    exact hle

/-- Before the end of the sequence nothing is released. -/
theorem Point.Known.quiet {point : Point ε} (h : point.Known errors calls) :
    (releases calls = 0 ∧ Locked calls) ∨ ∃ lanes final, Finished errors calls lanes final := by
  have hbool := fun b : Bool => Bool.toNat_le b
  cases point with
  | stopPolling =>
    subst h
    exact .inl ⟨rfl, Nat.le_refl 0, Nat.zero_le 1⟩
  | acquireLanes => exact .inl ⟨h.1.release, h.1.locked (Nat.le_refl 0) (Nat.zero_le 1)⟩
  | drainWorkflow | drainActivity => exact .inl ⟨h.1.release, h.1.locked (Nat.zero_le _) (hbool _)⟩
  | releaseLanes => exact .inl ⟨h.1.release, h.1.locked (Nat.zero_le 1) (Nat.le_refl 1)⟩
  | awaitAsyncLeases | probeActivity | probeWorkflow | probeDetached =>
    exact .inl ⟨h.1.release, h.1.locked (Nat.le_refl _) (hbool _)⟩
  | publish | release =>
    obtain ⟨taken, hle, hbook⟩ := h.book
    exact .inl ⟨hbook.release, hbook.locked (Nat.le_refl _) hle⟩
  | finish lanes final => exact .inr ⟨lanes, final, h⟩
  | ended => exact .inr h

/-- Only these calls of the release end the sequence well. -/
theorem finalOf_eq_ok {lanes : Lanes} {failure : Option ε} {answer : Except X (Release ε)}
    (h : finalOf lanes failure answer = .ok) :
    failure = none ∧ ∃ release, answer = .ok release ∧
      (release = .released ∨
        (∃ error, release = .releasedRetiringLeases error) ∧ lanes.stopped = false) := by
  cases answer with
  | error x => cases h
  | ok release =>
    cases failure with
    | some error => cases h
    | none =>
      refine ⟨rfl, release, rfl, ?_⟩
      cases release with
      | released => exact .inl rfl
      | releaseFailed error => cases h
      | releasedRetiringLeases error =>
        refine .inr ⟨⟨error, rfl⟩, ?_⟩
        simp only [finalOf] at h
        split_ifs at h with hstopped
        exact Bool.not_eq_true' _ |>.mp hstopped

theorem outcomeOf_eq_shutDown {elapsed : T} {teardown : Teardown} {lanes : Lanes} {final : Final ε}
    {report : Report T} (h : outcomeOf elapsed teardown lanes final = .shutDown report) :
    final = .ok ∧ report.teardown = teardown ∧ report.lanesStopped = lanes.stopped := by
  cases final with
  | ok =>
    obtain rfl := Outcome.shutDown.inj h
    exact ⟨rfl, rfl, rfl⟩
  | _ => cases h

/-- What a sequence that ended well has seen: both drains without a failure, no lease left at the
last count, and a release that succeeded at the end. -/
structure Clean (errors : Errors X ε) (calls : List (Call X ε T)) (lanesStopped : Bool) : Prop where
  workflow : ∃ drain, result errors (last Call.workflow? calls) = some drain ∧ drain.failed = false
  activity : ∃ drain, result errors (last Call.activity? calls) = some drain ∧ drain.failed = false
  /-- The wait for the leases asks again until the deadline, so that its last answer is the one that
  counts there. -/
  leases : ∀ n, last Call.leases? calls = some (.ok n) → n ≤ 0
  release : ∃ before release, calls = before ++ [.release (.ok release)] ∧
    (release = .released ∨
      (∃ error, release = .releasedRetiringLeases error) ∧ lanesStopped = false)

theorem Finished.clean {lanes : Lanes} (h : Finished errors calls lanes .ok) :
    Clean errors calls lanes.stopped := by
  obtain ⟨before, answer, failure, rfl, hready, hfinal⟩ := h
  obtain ⟨rfl, release, rfl, hrelease⟩ := finalOf_eq_ok hfinal.symm
  obtain ⟨workflow, activity, hsettled, hfailure⟩ := hready.settled
  obtain ⟨hw, ha⟩ := firstDrainFailure_eq_none hfailure.symm
  have hmore : last Call.workflow? [(.release (.ok release) : Call X ε T)] = none := rfl
  have hsettled' := hsettled.append errors hmore rfl rfl
  obtain ⟨drain, hdrain, hfailed⟩ := hsettled'.second
  exact ⟨⟨workflow, hsettled'.first, hw⟩, ⟨drain, hdrain, hfailed ha⟩, hsettled'.leases ha,
    before, release, rfl, hrelease⟩

end

section

variable {X ε T : Type} [Add T] [Sub T] [Max T] [Min T] [OfScientific T] [LT T] [DecidableLT T]
  [LE T] [DecidableLE T] {config : Config X ε T} {s : State X ε T}

/-- In every run, whatever the operations and the clock answer and raise: the lane lock is given
back at most as often as it was taken, which is once at most; a call of the native release is the
last call and the only one of its kind, both drains have ended before it and the lock has been given
back by then, if it was taken; a thread that has ended has called it; the thread ends once the clock
has passed; and a clean outcome with a completed teardown is the outcome of a clean sequence. -/
theorem worker_shutdown_ok (hs : (system config).Reachable s) :
    Locked s.calls ∧
      (∀ before answer after, s.calls = before ++ .release answer :: after →
        after = [] ∧ releases before = 0 ∧ frees before = acquisitions before ∧
          last Call.workflow? before ≠ none ∧ last Call.activity? before ≠ none) ∧
      (s.thread = some .ended → releases s.calls = 1) ∧
      (∀ point, s.thread = some point → ∀ answers : List (Answers X ε T),
        (∀ a ∈ answers, config.Passed a.now) → 12 ≤ answers.length →
        ∃ taken s', taken <+: answers ∧ (system config).replay (taken.map .thread) s = some s' ∧
          s'.thread = some .ended) ∧
      ∀ report, s.caller = .returned (.shutDown report) → report.teardown = .completed →
        Clean config.errors s.calls report.lanesStopped := by
  have hinv := reachable_inv hs
  have hquiet : (releases s.calls = 0 ∧ Locked s.calls) ∨
      ∃ lanes final, Finished config.errors s.calls lanes final := by
    cases hthread : s.thread with
    | none =>
      rw [(hinv.unstarted hthread).1]
      exact .inl ⟨rfl, Nat.le_refl 0, Nat.zero_le 1⟩
    | some point => exact (hinv.known point hthread).quiet
  refine ⟨?_, ?_, ?_, ?_, ?_⟩
  · rcases hquiet with ⟨-, hlocked⟩ | ⟨lanes, final, hfinished⟩
    · exact hlocked
    · exact hfinished.releases.2
  · intro before answer after hcalls
    rcases hquiet with ⟨hzero, -⟩ | ⟨lanes, final, hfinished⟩
    · rw [hcalls, releases, List.countP_append, List.countP_cons_of_pos rfl] at hzero
      omega
    · obtain ⟨hafter, failure, hready, -⟩ := hfinished.split hcalls
      obtain ⟨taken, -, hbook⟩ := hready.book
      obtain ⟨workflow, activity, hsettled, -⟩ := hready.settled
      obtain ⟨drain, hdrain, -⟩ := hsettled.second
      refine ⟨hafter, hbook.release, hbook.freed.trans hbook.taken.symm, ?_, ?_⟩
      · intro hnone
        have hfirst := hsettled.first
        rw [hnone] at hfirst
        cases hfirst
      · intro hnone
        rw [hnone] at hdrain
        cases hdrain
  · intro hthread
    obtain ⟨lanes, final, hfinished⟩ := hinv.known _ hthread
    exact hfinished.releases.1
  · intro point hthread answers hnow hlength
    refine ends_once_passed hthread answers hnow (Nat.le_trans ?_ hlength)
    cases point with
    | _ => simp only [Point.rank]; decide
  · intro report hcaller hteardown
    have hreturned : CallerOk s.thread s.progress.final (.returned (.shutDown report)) :=
      hcaller ▸ hinv.caller
    rcases hreturned with ⟨elapsed, lanes, final, hout⟩ | ⟨elapsed, lanes, final, hout, hfinal⟩
    · obtain ⟨-, hdetached, -⟩ := outcomeOf_eq_shutDown hout.symm
      rw [hteardown] at hdetached
      cases hdetached
    · obtain ⟨rfl, -, hstopped⟩ := outcomeOf_eq_shutDown hout.symm
      rw [hstopped]
      exact (hinv.published lanes .ok hfinal).2.clean

end

/-- Everything is idle and the drains find nothing; the lock is as `free` says and the clock
stands. -/
def idle (free : Bool) : Answers Unit Unit ℚ where
  now := 0
  stopPolling := .ok ()
  tryAcquireLanes := .ok free
  releaseLanes := .ok ()
  activityLaneDetached := .ok false
  activityCallbackRunning := .ok false
  workflowActivationInFlight := .ok false
  drainWorkflow := .ok .drained
  drainActivity := .ok .drained
  outstandingAsyncLeases := .ok 0
  release := .ok .released

def fiveSeconds : Config Unit Unit ℚ := ⟨5, 5, ⟨fun _ => (), fun _ => ()⟩⟩

theorem worker_shutdown_ok_prompt : ∃ s : State Unit Unit ℚ,
    (system fiveSeconds).Reachable s ∧
      s.caller = .returned (.shutDown ⟨0, true, 0, 0, .completed⟩) ∧
      Clean fiveSeconds.errors s.calls true := by
  have hrun : ((system fiveSeconds).replay
      ([.caller (idle true), .create true] ++ List.replicate 11 (.thread (idle true)) ++
        [.caller (idle true), .caller (idle true)]) State.initial).map
      (fun s => match s.caller with | .returned outcome => some outcome | _ => none) =
      some (some (.shutDown ⟨0, true, 0, 0, .completed⟩)) := by decide +kernel
  obtain ⟨s, hs, hcaller⟩ := Option.map_eq_some_iff.mp hrun
  have hreach := Lib.Transitions.Reachable.replay (.start rfl) hs
  have hreturned : s.caller = .returned (.shutDown ⟨0, true, 0, 0, .completed⟩) := by
    cases hc : s.caller with
    | returned outcome => rw [hc] at hcaller; rw [Option.some.inj hcaller]
    | _ => rw [hc] at hcaller; cases hcaller
  exact ⟨s, hreach, hreturned, (worker_shutdown_ok hreach).2.2.2.2 _ hreturned rfl⟩

/-- A clock that stands still before the deadline while the lock is held: the thread goes on asking
for it, and however many steps it takes, it releases nothing. -/
theorem standing_clock_never_releases :
    ∃ s : State Unit Unit ℚ, (system fiveSeconds).Reachable s ∧ s.thread = some .acquireLanes ∧
      ∀ n, ∃ s', (system fiveSeconds).replay (List.replicate n (.thread (idle false))) s = some s' ∧
        s'.thread = some .acquireLanes ∧ releases s'.calls = 0 := by
  obtain ⟨s, hs, hthread, hzero⟩ : ∃ s : State Unit Unit ℚ, (system fiveSeconds).replay
      [.caller (idle false), .create true, .thread (idle false)] State.initial = some s ∧
      s.thread = some .acquireLanes ∧ releases s.calls = 0 := ⟨_, rfl, rfl, rfl⟩
  refine ⟨s, Lib.Transitions.Reachable.replay (.start rfl) hs, hthread, fun n => ?_⟩
  -- The induction is on the number of steps; a step of the loop leads back to its start.
  clear hs
  induction n generalizing s with
  | zero => exact ⟨s, rfl, hthread, hzero⟩
  | succ n ih =>
    have hnext : (Point.acquireLanes).next fiveSeconds (idle false) =
        ([.tryAcquireLanes (.ok false), .now 0], .acquireLanes) := by
      have hbefore : ¬ fiveSeconds.giveUp ≤ (idle false).now := by decide +kernel
      simp only [Point.next, if_neg hbefore]
      rfl
    obtain ⟨m, hm, hmthread⟩ := step_enabled fiveSeconds hthread (by decide) (idle false)
    obtain ⟨point, hp, -, hmeq⟩ := step_thread hm
    rw [hthread, Option.some.injEq] at hp
    subst hp
    rw [hnext] at hmthread hmeq
    have hmzero : releases m.calls = 0 := by
      rw [hmeq, releases_append, hzero]
      rfl
    obtain ⟨s', hreplay, hs'⟩ := ih m hmthread hmzero
    exact ⟨s', Option.bind_eq_some_iff.mpr ⟨m, hm, hreplay⟩, hs'⟩

end OcamlTemporal.Worker.Shutdown
