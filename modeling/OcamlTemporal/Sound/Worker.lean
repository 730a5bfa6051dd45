import OcamlTemporal.Worker.Ownership
import OcamlTemporal.Worker.Processing

/-!
# OcamlTemporal.Sound.Worker

**One party completes an activation, and a failure is reported once.** The steps of the
adapter keep `Kept`, one lemma per step (`Adapter.step_kept`), so it holds in every
state that any interleaving of lane and watchdogs reaches. The main results read it off:

* `activation_completed_by_claimer`: who may submit for an activation, how often and
  with which bytes, and when a run may leave the run map;
* `failed_activation_replaced_once`: what becomes of an activation that fails. The
  handler for exceptions retires the run of a query-only activation, so the part about
  its run holds in the runs in which no such activation raises
  (`Adapter.queriesReturn`); `raising_query_removes_run` is a run in which one does.
-/

namespace OcamlTemporal.Worker

open OcamlTemporal.Protocol
open OcamlTemporal.Lib (Justified)

namespace Adapter

variable {encode : Completion → Except ErrorView Bytes} {spare : Prop} {definitions : List Bytes}
  {s s' : Adapter}
  {p : Pending} {answer : Answer} {epoch : Nat} {runId : Bytes}

/-! ### Dropping runs -/

@[simp] theorem dropRun_pending : (s.dropRun epoch runId).pending = s.pending := by
  unfold dropRun
  split <;> rfl

@[simp] theorem dropRun_flights : (s.dropRun epoch runId).flights = s.flights := by
  unfold dropRun
  split <;> rfl

@[simp] theorem dropRun_inFlight : (s.dropRun epoch runId).inFlight = s.inFlight := by
  unfold dropRun
  split <;> rfl

@[simp] theorem dropRun_watchdogs : (s.dropRun epoch runId).watchdogs = s.watchdogs := by
  unfold dropRun
  split <;> rfl

theorem dropRun_trace (s : Adapter) (epoch : Nat) (runId : Bytes) :
    (s.dropRun epoch runId).trace = s.trace ∨
    (s.dropRun epoch runId).trace = s.trace ++ [.removed epoch runId] := by
  unfold dropRun
  split
  · exact .inr rfl
  · exact .inl rfl

theorem dropRun_core (h : Core encode spare s.pending s.flights s.watchdogs s.trace)
    (hallowed : Allowed encode spare s.trace (.removed epoch runId)) :
    Core encode spare (s.dropRun epoch runId).pending (s.dropRun epoch runId).flights
      (s.dropRun epoch runId).watchdogs (s.dropRun epoch runId).trace := by
  rw [dropRun_pending, dropRun_flights, dropRun_watchdogs]
  rcases s.dropRun_trace epoch runId with htrace | htrace
  · rwa [htrace]
  · rw [htrace]
    exact h.note trivial (by simp) hallowed

/-! ### Submitting

`finish_pending` is called for a fresh completion by the lane and for a retained one by `poll` and
by `drain`. One lemma about `Core` covers them all; only the first submission has a stage of its
own. -/

/-- What `finish_pending` does to a completion that is retained. -/
theorem finishPending_core (answer : Answer)
    (h : Core encode spare s.pending s.flights s.watchdogs s.trace)
    (hp : p ∈ s.pending) :
    Core encode spare (s.finishPending p answer).1.pending (s.finishPending p answer).1.flights
      (s.finishPending p answer).1.watchdogs (s.finishPending p answer).1.trace := by
  have hsingle := h.eq_single hp
  unfold finishPending
  split
  · exact h
  · rename_i hnone
    split
    · exact h.refuse p.runId _
    · rename_i encoded hencoded
      have hrefused : ∀ e, answer ≠ .accepted → Core encode spare
          ((s.note (.submitted p.epoch .lane encoded answer)).refuse p.runId e).pending s.flights
          s.watchdogs (s.trace ++ [.submitted p.epoch .lane encoded answer]) := by
        intro e hfailed
        have hcore := h.submit_failed hp hnone hencoded hfailed
          (fun h : some e = none => by cases h)
        simpa [refuse, note, hsingle] using hcore
      have hretried : answer ≠ .accepted → answer.isRetryable = true → Core encode spare s.pending
          s.flights s.watchdogs (s.trace ++ [.submitted p.epoch .lane encoded answer]) := by
        intro hfailed hretry
        have hcore := h.submit_failed hp hnone hencoded hfailed
          (fun _ : (none : Option ErrorView) = none => hretry)
        rw [hsingle]
        rwa [← hnone] at hcore
      cases answer with
      | rejected code message retryable =>
        cases retryable with
        | true => exact hretried (by simp) rfl
        | false => exact hrefused _ (by simp)
      | raised message retryable =>
        cases retryable with
        | true => exact hretried (by simp) rfl
        | false => exact hrefused _ (by simp)
      | accepted =>
        have hcore := h.submit_accepted hp hnone hencoded
        have hallowed : (∀ e, p.result ≠ .rejected e false) → Allowed encode spare
            (s.trace ++ [.submitted p.epoch .lane encoded .accepted])
              (.removed p.epoch p.runId) := by
          intro hresult
          have howned := h.owned p hp
          obtain ⟨activation, hpolled, hrun⟩ := howned.run
          refine ⟨⟨activation, List.mem_append_left _ hpolled, hrun⟩, howned.newest.note (by simp),
            .inl ⟨.lane, encoded, by simp⟩, fun hspare activation completion hmem hquery hbuilt =>
              ?_⟩
          obtain ⟨e, he⟩ := howned.spares hspare activation completion (by simpa using hmem) hquery
            (by simpa using hbuilt)
          exact hresult e he
        have hempty : s.pending.filter (·.runId ≠ p.runId) = [] := by simp [hsingle]
        simp only [Answer.result, acceptedPending, note, hempty]
        split
        · rename_i hresult
          split
          · exact dropRun_core hcore (hallowed (by simp [hresult]))
          · exact hcore
        · rename_i hresult
          split
          · rename_i hremove
            exact dropRun_core hcore (hallowed (by simp [hresult, hremove]))
          · exact hcore

theorem finishPending_inFlight : (s.finishPending p answer).1.inFlight = s.inFlight := by
  unfold finishPending acceptedPending
  repeat' split
  all_goals first | rfl | exact dropRun_inFlight

theorem dropRun_lane : (s.dropRun epoch runId).lane = s.lane := by
  unfold dropRun
  split <;> rfl

theorem finishPending_lane : (s.finishPending p answer).1.lane = s.lane := by
  unfold finishPending acceptedPending
  repeat' split
  all_goals first | rfl | exact dropRun_lane

/-- What `finish_pending` records for a completion that was not refused. -/
theorem finishPending_trace (s : Adapter) (answer : Answer) (hnone : p.retryRefusal = none) :
    match p.submission with
    | .error _ => (s.finishPending p answer).1.trace = s.trace
    | .ok encoded =>
      (s.finishPending p answer).1.trace = s.trace ++ [.submitted p.epoch .lane encoded answer] ∨
        (s.finishPending p answer).1.trace =
          s.trace ++ [.submitted p.epoch .lane encoded answer] ++ [.removed p.epoch p.runId] := by
  cases hsubmission : p.submission with
  | error e => simp [finishPending, hnone, hsubmission, refuse]
  | ok encoded =>
    cases answer with
    | rejected code message retryable =>
      cases retryable <;> exact .inl (by simp [finishPending, hnone, hsubmission, Answer.result,
        Answer.isRetryable, refuse, note])
    | raised message retryable =>
      cases retryable <;> exact .inl (by simp [finishPending, hnone, hsubmission, Answer.result,
        Answer.isRetryable, refuse, note])
    | accepted =>
      simp only [finishPending, hnone, hsubmission, Answer.result, acceptedPending]
      split
      · split
        · exact dropRun_trace _ _ _
        · exact .inl rfl
      · split
        · exact dropRun_trace _ _ _
        · exact .inl rfl

/-- The lane submits a completion for the first time. Nothing was submitted for the activation
before, so afterwards the trace holds this attempt and no other. -/
theorem submit_kept (h : Kept encode spare s) (hlane : s.lane = .submitting epoch p) :
    Kept encode spare { (s.finishPending p answer).1 with
      lane := .withdrawing epoch (s.finishPending p answer).2 } := by
  obtain ⟨hinFlight, hpending, hcarries, hnone⟩ :
      LaneOk encode spare s.pending s.inFlight s.trace (.submitting epoch p) := hlane ▸ h.lane
  have hp : p ∈ s.pending := by simp [hpending]
  have hclaimed : .claimed epoch .lane ∈ s.trace := hcarries.epoch_eq ▸ (h.core.owned p hp).claimed
  refine ⟨finishPending_core answer h.core hp, finishPending_inFlight.trans hinFlight, ?_⟩
  -- the submission is the only one, and the completion that was built is the one submitted
  suffices hattempt : ∀ trace, (∀ completion, .built epoch completion ∈ trace →
      .built epoch completion ∈ s.trace) → .claimed epoch .lane ∈ trace →
      (match p.submission with
        | .error _ => laneSubmissions epoch trace = []
        | .ok encoded => laneSubmissions epoch trace = [(encoded, answer)]) →
      FirstAttempt encode trace epoch by
    have htrace := finishPending_trace s answer hcarries.unrefused
    cases hsubmission : p.submission with
    | error e =>
      rw [hsubmission] at htrace
      refine hattempt _ ?_ ?_ ?_
      · exact fun completion hbuilt => by simpa [htrace] using hbuilt
      · simpa [htrace] using hclaimed
      · simpa [htrace, hsubmission] using hnone
    | ok encoded =>
      rw [hsubmission] at htrace
      have hepoch := hcarries.epoch_eq
      rcases htrace with htrace | htrace <;>
      · refine hattempt _ ?_ ?_ ?_
        · exact fun completion hbuilt => by simpa [htrace] using hbuilt
        · simpa [htrace] using hclaimed
        · simp only [htrace, hsubmission, laneSubmissions_snoc, hnone, hepoch]
          simp
  intro trace hbuilt hclaimed hsubmitted
  refine ⟨fun hno => absurd hclaimed hno, fun _ completion hcompletion => ?_⟩
  rw [hcarries.built completion (hbuilt completion hcompletion)] at hsubmitted
  cases hencode : encodeSubmission encode completion with
  | ok encoded =>
    rw [hencode] at hsubmitted
    exact ⟨answer, hsubmitted⟩
  | error e =>
    rw [hencode] at hsubmitted
    exact hsubmitted

/-! ### Executing and claiming -/

/-- Workflow code ran and a record was made. With `spare` the code of a query has to return: an
exception is the one failure of a query that removes its run. -/
theorem execute_kept {flight : Flight} {answers : Answers} (h : Kept encode spare s)
    (hlane : s.lane = .executing epoch) (hflight : s.flights[epoch]? = some flight)
    (hreturns : spare → (queryOnlyIds flight.activation).isSome = true →
      flight.activation.runId ∈ s.runs → raises answers = false) :
    Kept encode spare (s.execute encode definitions epoch flight.activation answers) := by
  obtain ⟨hinFlight, hpending, hunclaimed, hnewest, hunbuilt, hunremoved⟩ :
      LaneOk encode spare s.pending s.inFlight s.trace (.executing epoch) := hlane ▸ h.lane
  have hpolled := (h.core.flown epoch flight hflight).1
  unfold execute
  by_cases hfails : ∃ e, Fails definitions s.runs flight.activation answers e
  · obtain ⟨e, hfails⟩ := hfails
    obtain ⟨removeRun, runs', hrun, -⟩ := processOne_of_fails encode epoch hfails
    rw [hrun]
    refine ⟨h.core.note trivial (fun _ _ _ => hpending) ⟨hunbuilt, hunremoved, _, e, hpolled, rfl⟩,
      hinFlight, hpending, ?_, ?_⟩
    · simpa using hunclaimed
    · refine ⟨rfl, rfl, ⟨_, List.mem_append_left _ hpolled, rfl⟩, hnewest.note (by simp),
        fun hspare activation completion hmem hquery _ => ?_, fun completion hbuilt => ?_⟩
      · obtain rfl := h.core.polled_unique (by simpa using hmem) hpolled
        refine (processOne_keeps_run hquery (hreturns hspare hquery) hrun).resolve_left ?_
        simp
      rcases List.mem_append.mp hbuilt with hbuilt | hbuilt
      · exact absurd hbuilt (hunbuilt completion)
      · obtain rfl : completion = failureCompletion flight.activation e := by simpa using hbuilt
        rfl
  · have hnot : ∀ e, ¬ Fails definitions s.runs flight.activation answers e :=
      fun e he => hfails ⟨e, he⟩
    obtain ⟨p, runs', hrun, hsucceeds, -⟩ :=
      processOne_of_succeeds encode epoch hnot
    rw [hrun]
    refine ⟨by simpa using h.core, hinFlight, hpending, by simpa using hunclaimed, ?_⟩
    refine ⟨hsucceeds.epoch, hsucceeds.unrefused, ⟨_, by simpa using hpolled, hsucceeds.runId.symm⟩,
      by simpa using hnewest, fun _ _ completion _ _ hbuilt =>
        absurd (by simpa using hbuilt) (hunbuilt completion), fun completion hbuilt =>
          absurd (by simpa using hbuilt) (hunbuilt completion)⟩

/-- The lane goes for the claim: it either gets it and retains the record, or leaves the activation
to the watchdog. -/
theorem claim_kept (h : Kept encode spare s) (hlane : s.lane = .claiming epoch p) :
    Kept encode spare (s.enqueuePending epoch p) := by
  obtain ⟨hinFlight, hpending, hunclaimed, hcarries⟩ :
      LaneOk encode spare s.pending s.inFlight s.trace (.claiming epoch p) := hlane ▸ h.lane
  obtain ⟨activation, hpolled, hrun⟩ := hcarries.run
  obtain ⟨flight, hflight, rfl⟩ := h.core.polled epoch activation hpolled
  have hclaims := (h.core.flown epoch flight hflight).2
  unfold enqueuePending laneLostClaim
  simp only [hinFlight, hflight, if_pos hrun]
  cases hclaim : flight.claim with
  | none =>
    -- the lane has won: its completion is recorded before it is submitted
    have hcore := (hpending ▸ h.core).claimLane hflight hclaim hcarries.epoch_eq hrun
      hcarries.newest hcarries.spares
    have hnotMem : p.runId ∉ ([] : List Pending).map Pending.runId := by simp
    simp only [note, setFlight, hpending, insertPending, if_neg hnotMem]
    refine ⟨hcore, hinFlight, rfl, ?_, ?_⟩
    · exact ⟨hcarries.epoch_eq, hcarries.unrefused, ⟨_, List.mem_append_left _ hpolled, hrun⟩,
        hcarries.newest.note (by simp),
        fun hspare => (hcarries.spares hspare).note (by simp) (by simp), fun completion hbuilt =>
          hcarries.built completion (by simpa using hbuilt)⟩
    · rw [laneSubmissions_snoc]
      simpa using laneSubmissions_eq_nil h.core.allowed hunclaimed
  | some party =>
    cases party with
    | lane => exact absurd ((hclaims .lane).mp hclaim) hunclaimed
    | watchdog =>
      have hwatchdog := (hclaims .watchdog).mp hclaim
      simp only [hflight, abandonedByWatchdog]
      split
      · rename_i hnone
        have hallowed : Allowed encode spare s.trace (.removed epoch flight.activation.runId) := by
          refine ⟨⟨_, hpolled, rfl⟩, hcarries.newest, .inr hwatchdog,
            fun _ activation completion hmem hquery _ => ?_⟩
          rw [h.core.polled_unique hmem hpolled] at hquery
          simp [Option.isNone_iff_eq_none.mp hnone] at hquery
        have hcore := dropRun_core h.core hallowed
        refine ⟨hcore, by simpa using hinFlight, by simpa using hpending, ?_⟩
        rcases s.dropRun_trace epoch flight.activation.runId with htrace | htrace <;>
        · simp only [htrace]
          exact ⟨by simpa using hunclaimed, by simpa using hwatchdog⟩
      · exact ⟨h.core, hinFlight, hpending, hunclaimed, hwatchdog⟩

/-! ### The other steps -/

theorem poll_kept {polled : Polled} {returned : Option (Except ErrorView Outcome)}
    (h : Kept encode spare s) (hlane : s.lane = .idle returned) :
    Kept encode spare (s.poll polled answer) := by
  have hinFlight : LaneOk encode spare s.pending s.inFlight s.trace (.idle returned) :=
    hlane ▸ h.lane
  unfold poll
  split
  · rename_i p rest hpending
    exact ⟨finishPending_core answer h.core (by simp [hpending]),
      finishPending_inFlight.trans hinFlight⟩
  · rename_i hpending
    cases polled with
    | notReady | failed | raised => exact ⟨hpending ▸ h.core, hinFlight⟩
    | ready activation =>
      have hcore := (hpending ▸ h.core).poll activation
      have hunclaimed : .claimed s.flights.length .lane ∉ s.trace :=
        h.core.fresh fun _ hallowed => hallowed.1
      have hunbuilt (completion : Completion) : .built s.flights.length completion ∉ s.trace :=
        h.core.fresh fun _ hallowed => hallowed.2.2.imp fun _ hbuilt => hbuilt.choose_spec.1
      have hunremoved (runId : Bytes) : .removed s.flights.length runId ∉ s.trace :=
        h.core.fresh fun _ hallowed => hallowed.1.imp fun _ => And.left
      refine ⟨by simpa [note, hpending] using hcore, rfl, hpending, ?_, ?_, ?_, ?_⟩
      · simpa [note] using hunclaimed
      · intro epoch' activation' hmem
        exact Nat.lt_succ_iff.mp (by simpa using hcore.epoch_lt hmem)
      · simpa [note] using hunbuilt
      · simpa [note] using hunremoved

theorem resume_kept {returned : Except ErrorView Outcome} (h : Kept encode spare s)
    (hlane : s.lane = .waiting epoch) :
    Kept encode spare { s with lane := .withdrawing epoch returned } := by
  obtain ⟨hinFlight, -, hunclaimed, hwatchdog⟩ :
      LaneOk encode spare s.pending s.inFlight s.trace (.waiting epoch) := hlane ▸ h.lane
  exact ⟨h.core, hinFlight,
    fun _ => ⟨hwatchdog, laneSubmissions_eq_nil h.core.allowed hunclaimed⟩,
    fun hclaimed => absurd hclaimed hunclaimed⟩

theorem drainNext_kept {rest : List Pending} {lane : LaneStage} (h : Kept encode spare s)
    (hlane : s.lane = .draining) (hpending : s.pending = p :: rest)
    (hnext : lane = .draining ∨ ∃ returned, lane = .idle returned) :
    Kept encode spare { (s.finishPending p answer).1 with lane } := by
  have hinFlight : LaneOk encode spare s.pending s.inFlight s.trace .draining := hlane ▸ h.lane
  refine ⟨finishPending_core answer h.core (by simp [hpending]), ?_⟩
  rcases hnext with rfl | ⟨returned, rfl⟩ <;> exact finishPending_inFlight.trans hinFlight

/-! ### What a step does -/

section

variable (encode : Completion → Except ErrorView Bytes) (definitions : List Bytes) (s : Adapter)

/-- The steps of lane and watchdogs, each with what enables it and the state that it leaves. The
invariant and the lemmas about the run map are case splits over this, not over `step`. -/
inductive Stepped : Label → Adapter → Prop
  | poll {returned : Option (Except ErrorView Outcome)} (hlane : s.lane = .idle returned)
      (polled : Polled) (answer : Answer) :
      Stepped (.poll polled answer) (s.poll polled answer)
  | execute {epoch : Nat} {flight : Flight} (hlane : s.lane = .executing epoch)
      (hflight : s.flights[epoch]? = some flight) (answers : Answers) :
      Stepped (.execute answers)
        (s.execute encode definitions epoch flight.activation answers)
  | claim {epoch : Nat} {p : Pending} (hlane : s.lane = .claiming epoch p) :
      Stepped .claim (s.enqueuePending epoch p)
  | submit {epoch : Nat} {p : Pending} (hlane : s.lane = .submitting epoch p) (answer : Answer) :
      Stepped (.submit answer) { (s.finishPending p answer).1 with
        lane := .withdrawing epoch (s.finishPending p answer).2 }
  | resume {epoch : Nat} (hlane : s.lane = .waiting epoch) (returned : Except ErrorView Outcome) :
      Stepped .resume { s with lane := .withdrawing epoch returned }
  | withdraw {epoch : Nat} {returned : Except ErrorView Outcome}
      (hlane : s.lane = .withdrawing epoch returned) :
      Stepped .withdraw
        ({ s with inFlight := none, lane := .idle (some returned) }.note (.finished epoch))
  | drain {returned : Option (Except ErrorView Outcome)} (hlane : s.lane = .idle returned) :
      Stepped .drain { s with lane := .draining }
  | drainNext {p : Pending} {rest : List Pending} {lane : LaneStage} (hlane : s.lane = .draining)
      (hpending : s.pending = p :: rest) (answer : Answer)
      (hnext : lane = .draining ∨ ∃ returned, lane = .idle returned) :
      Stepped (.drainNext answer) { (s.finishPending p answer).1 with lane }
  | drained (hlane : s.lane = .draining) (answer : Answer) :
      Stepped (.drainNext answer) { s with lane := .idle none }
  | discard {returned : Option (Except ErrorView Outcome)} (hlane : s.lane = .idle returned) :
      Stepped .discard
        ({ s with runs := [], pending := [] }.note (.discarded (s.pending.map Pending.epoch)))
  | observe (w epoch : Nat) :
      Stepped (.observe w epoch) (s.setWatchdog w (.holding epoch))
  | seize (w : Nat) {epoch : Nat} {flight : Flight} (hflight : s.flights[epoch]? = some flight)
      (hnone : flight.claim = none) :
      Stepped (.seize w)
        (((s.setFlight epoch { flight with claim := some .watchdog }).setWatchdog w
          (.claimed epoch)).note (.claimed epoch .watchdog))
  | late (w : Nat) : Stepped (.seize w) (s.setWatchdog w .idle)
  | abandon {w epoch : Nat} {flight : Flight} {encoded : Bytes}
      (hstage : s.watchdogs w = .claimed epoch) (hflight : s.flights[epoch]? = some flight)
      (hencoded : encodeSubmission encode
        (failureCompletion flight.activation deadlineExceededError) = .ok encoded)
      (answer : Answer) :
      Stepped (.abandon w answer)
        ((s.setWatchdog w (.submitted epoch answer.result)).note
          (.submitted epoch .watchdog encoded answer))
  | unencoded {w epoch : Nat} (hstage : s.watchdogs w = .claimed epoch) (answer : Answer)
      (e : ErrorView) :
      Stepped (.abandon w answer)
        (s.setWatchdog w (.submitted epoch (.error e)))
  | publish (w : Nat) {epoch : Nat} {flight : Flight} (hflight : s.flights[epoch]? = some flight)
      (outcome : Except ErrorView Unit) :
      Stepped (.publish w)
        ((s.setFlight epoch { flight with watchdogOutcome := some outcome }).setWatchdog w .idle)

end

variable {l : Label}

/-- **Every step is one of these.** -/
theorem step_cases (h : s.step encode definitions l = some s') :
    Stepped encode definitions s l s' := by
  cases l with
  | drainNext answer =>
    simp only [step] at h
    split at h
    · next hlane =>
      split at h
      · next p rest hpending =>
        have hnext : ∀ lane : LaneStage, (lane = .draining ∨ ∃ returned, lane = .idle returned) →
            Stepped encode definitions s (.drainNext answer)
              { (s.finishPending p answer).1 with lane } :=
          fun lane hlane' => .drainNext hlane hpending answer hlane'
        have hkept : (s.finishPending p answer).1.lane = .draining := finishPending_lane.trans hlane
        split at h
        · next heq =>
          rw [heq] at hnext hkept
          cases h
          exact hnext _ (.inl hkept)
        · next heq =>
          rw [heq] at hnext
          cases h
          exact hnext _ (.inr ⟨_, rfl⟩)
      · cases h
        exact .drained hlane answer
    · cases h
  | _ =>
    simp only [step] at h
    repeat' split at h
    all_goals cases h
    all_goals constructor <;> assumption

/-- No query-only activation of a cached run raises. -/
def queriesReturn (s : Adapter) : Label → Bool
  | .execute answers =>
    match s.lane with
    | .executing epoch =>
      match s.flights[epoch]? with
      | some flight =>
        !((queryOnlyIds flight.activation).isSome && decide (flight.activation.runId ∈ s.runs) &&
          raises answers)
      | none => true
    | _ => true
  | _ => true

/-- Every step of lane and watchdogs keeps who owns what. -/
theorem step_kept (h : Kept encode spare s) (hreturns : spare → s.queriesReturn l = true)
    (hstep : s.step encode definitions l = some s') : Kept encode spare s' := by
  cases step_cases hstep with
  | poll hlane => exact poll_kept h hlane
  | execute hlane hflight =>
    refine execute_kept h hlane hflight fun hspare hquery hcached => ?_
    simpa [queriesReturn, hlane, hflight, hquery, hcached] using hreturns hspare
  | claim hlane => exact claim_kept h hlane
  | submit hlane => exact submit_kept h hlane
  | resume hlane => exact resume_kept h hlane
  | @withdraw epoch returned hlane =>
    have ⟨_, hattempt⟩ : LaneOk encode spare s.pending s.inFlight s.trace
      (.withdrawing epoch returned) := hlane ▸ h.lane
    exact ⟨h.core.note trivial (by simp) hattempt, rfl⟩
  | @drain returned hlane =>
    have hinFlight : LaneOk encode spare s.pending s.inFlight s.trace (.idle returned) :=
      hlane ▸ h.lane
    exact ⟨h.core, hinFlight⟩
  | drainNext hlane hpending _ hnext => exact drainNext_kept h hlane hpending hnext
  | drained hlane =>
    have hinFlight : LaneOk encode spare s.pending s.inFlight s.trace .draining := hlane ▸ h.lane
    exact ⟨h.core, hinFlight⟩
  | @discard returned hlane =>
    have hinFlight : LaneOk encode spare s.pending s.inFlight s.trace (.idle returned) :=
      hlane ▸ h.lane
    simp only [note, hlane]
    exact ⟨h.core.discard, hinFlight⟩
  | observe w | late w => exact ⟨h.core.setWatchdog w _ trivial (by simp), h.lane⟩
  | seize w hflight hnone => exact ⟨h.core.claimWatchdog hflight hnone w, h.lane.watch trivial⟩
  | @unencoded w epoch hstage =>
    have hguarded : WatchdogOk s.trace (.claimed epoch) := hstage ▸ h.core.guarded w
    exact ⟨h.core.setWatchdog w _ hguarded.1 (by simp), h.lane⟩
  | abandon hstage => exact ⟨h.core.submitWatchdog hstage _ _ _, h.lane.watch trivial⟩
  | publish w hflight =>
    exact ⟨(h.core.publish hflight _).setWatchdog w _ trivial (by simp), h.lane⟩

theorem empty_kept : Kept encode spare .empty where
  core :=
    { flown := by simp [empty], polled := by simp [empty], single := by simp [empty]
      owned := by simp [empty], settled := by simp [empty], guarded := fun _ => trivial
      sole := by simp [empty], allowed := Justified.nil }
  lane := rfl

/-- Lane and watchdogs keep to who owns what in every run. -/
theorem kept_of_reachable (hs : (workerSystem encode definitions).Reachable s) :
    Kept encode False s := by
  refine hs.invariant (I := Kept encode False) ?_ fun _ _ _ _ h hstep => step_kept h nofun hstep
  rintro s rfl
  exact empty_kept

theorem kept_of_queriesReturn (hs : (workerSystem encode definitions).ReachableIf
    (fun s l => s.queriesReturn l = true) s) : Kept encode True s := by
  refine hs.invariant (I := Kept encode True) ?_ fun _ _ _ _ h hreturns hstep =>
    step_kept h (fun _ => hreturns) hstep
  rintro s rfl
  exact empty_kept

/-! ### The run map

A run may leave the run map in one place only, `dropRun`, which records it. What removes a run is
thus read off the last event of the trace. -/

/-- The last thing that happened was that the run was removed. -/
def JustRemoved (s : Adapter) (runId : Bytes) : Prop :=
  ∃ epoch before, s.trace = before ++ [.removed epoch runId]

theorem dropRun_removes (s : Adapter) (hin : runId ∈ s.runs) {runId' : Bytes}
    (hout : runId ∉ (s.dropRun epoch runId').runs) :
    (s.dropRun epoch runId').JustRemoved runId := by
  unfold dropRun at hout ⊢
  split
  · rename_i hmem
    rw [if_pos hmem] at hout
    obtain rfl : runId = runId' := by simpa [note, hin] using hout
    exact ⟨epoch, s.trace, rfl⟩
  · rename_i hmem
    rw [if_neg hmem] at hout
    exact absurd hin hout

theorem acceptedPending_removes (hin : runId ∈ s.runs)
    (hout : runId ∉ (s.acceptedPending p).1.runs) : (s.acceptedPending p).1.JustRemoved runId := by
  revert hout
  cases hresult : p.result with
  | completed commandCount terminal evicted =>
    simp only [acceptedPending, hresult]
    split
    · exact fun hout => dropRun_removes _ (by exact hin) hout
    · exact fun hout => absurd hin hout
  | rejected e removeRun =>
    simp only [acceptedPending, hresult]
    split
    · exact fun hout => dropRun_removes _ (by exact hin) hout
    · exact fun hout => absurd hin hout

theorem finishPending_removes (p : Pending) (answer : Answer) (hin : runId ∈ s.runs)
    (hout : runId ∉ (s.finishPending p answer).1.runs) :
    (s.finishPending p answer).1.JustRemoved runId := by
  revert hout
  cases hrefusal : p.retryRefusal with
  | some e =>
    simp only [finishPending, hrefusal]
    exact fun hout => absurd hin hout
  | none =>
    cases hsubmission : p.submission with
    | error e =>
      simp only [finishPending, hrefusal, hsubmission]
      exact fun hout => absurd hin hout
    | ok encoded =>
      simp only [finishPending, hrefusal, hsubmission]
      split
      · exact fun hout => acceptedPending_removes (by exact hin) hout
      · split <;> exact fun hout => absurd hin hout

theorem execute_keeps_runs {activation : Activation} {answers : Answers} :
    s.runs ⊆ (s.execute encode definitions epoch activation answers).runs := by
  unfold execute
  by_cases hfails : ∃ e, Fails definitions s.runs activation answers e
  · obtain ⟨e, hfails⟩ := hfails
    obtain ⟨removeRun, runs', hrun, hsub⟩ := processOne_of_fails encode epoch hfails
    rw [hrun]
    exact hsub
  · have hnot : ∀ e, ¬ Fails definitions s.runs activation answers e :=
      fun e he => hfails ⟨e, he⟩
    obtain ⟨p, runs', hrun, -, hsub⟩ := processOne_of_succeeds encode epoch hnot
    rw [hrun]
    exact hsub

theorem laneLostClaim_runs (s : Adapter) (runId : Bytes) :
    (s.laneLostClaim runId).1.runs = s.runs := by
  unfold laneLostClaim
  repeat' split
  all_goals rfl

theorem claim_removes (hin : runId ∈ s.runs) (hout : runId ∉ (s.enqueuePending epoch p).runs) :
    (s.enqueuePending epoch p).JustRemoved runId := by
  rw [← laneLostClaim_runs s p.runId] at hin
  revert hin hout
  unfold enqueuePending
  cases s.laneLostClaim p.runId with
  | mk s₁ lost =>
    cases lost with
    | none =>
      dsimp only
      split <;> exact fun hin hout => absurd hin hout
    | some lost =>
      dsimp only
      split
      · unfold abandonedByWatchdog
        split
        · exact fun hin hout => dropRun_removes s₁ hin hout
        · exact fun hin hout => absurd hin hout
      · exact fun hin hout => absurd hin hout

/-- A run leaves the run map when everything is discarded, or with a record of it. -/
theorem step_removes (hstep : s.step encode definitions l = some s') (hin : runId ∈ s.runs)
    (hout : runId ∉ s'.runs) : l = .discard ∨ s'.JustRemoved runId := by
  cases step_cases hstep with
  | discard => exact .inl rfl
  | poll _ polled answer =>
    refine .inr ?_
    revert hout
    unfold poll
    split
    · exact fun hout => finishPending_removes _ _ hin hout
    · cases polled <;> exact fun hout => absurd hin hout
  | execute => exact absurd (execute_keeps_runs hin) hout
  | claim => exact .inr (claim_removes hin hout)
  | submit | drainNext => exact .inr (finishPending_removes _ _ hin hout)
  | _ => exact absurd hin hout

theorem finishPending_flights (s : Adapter) (p : Pending) (answer : Answer) :
    (s.finishPending p answer).1.flights = s.flights := by
  unfold finishPending acceptedPending
  repeat' split
  all_goals first | rfl | exact dropRun_flights

theorem laneLostClaim_flights (s : Adapter) (runId : Bytes) :
    (s.laneLostClaim runId).1.flights.length = s.flights.length := by
  unfold laneLostClaim
  repeat' split
  all_goals first | rfl | exact List.length_set

theorem enqueuePending_flights :
    (s.enqueuePending epoch p).flights.length = s.flights.length := by
  rw [← laneLostClaim_flights s p.runId]
  unfold enqueuePending
  cases s.laneLostClaim p.runId with
  | mk s₁ lost =>
    cases lost with
    | none =>
      dsimp only
      split <;> rfl
    | some lost =>
      dsimp only
      split
      · unfold abandonedByWatchdog
        split
        · exact congrArg List.length dropRun_flights
        · rfl
      · rfl

/-- A new activation is polled only when nothing is retained. -/
theorem step_polls (hstep : s.step encode definitions l = some s') (hretained : s.pending ≠ []) :
    s'.flights.length = s.flights.length := by
  cases step_cases hstep with
  | poll =>
    unfold poll
    split
    · exact congrArg List.length (finishPending_flights ..)
    · exact absurd ‹_› hretained
  | execute =>
    unfold execute
    split <;> rfl
  | claim => exact enqueuePending_flights
  | submit | drainNext => exact congrArg List.length (finishPending_flights ..)
  | seize | publish => exact List.length_set
  | _ => rfl

end Adapter

/-! ## One party completes an activation -/

variable {encode : Completion → Except ErrorView Bytes} {definitions : List Bytes} {s : Adapter}

/-- **An activation is completed by the party that claimed it**: in every run of lane and watchdogs
at most one of them claims an activation, only that one submits a completion for it, and it submits
again only the same bytes and only after an answer that allows it. While a completion is retained no
activation is polled. A run leaves the run map after the completion of its newest activation was
accepted, after a watchdog took that activation, or when everything is discarded. -/
theorem activation_completed_by_claimer (hs : (workerSystem encode definitions).Reachable s) :
    -- of lane and watchdogs at most one claims an activation
    (∀ before after epoch party, s.trace = before ++ .claimed epoch party :: after →
      ∀ party', .claimed epoch party' ∉ before) ∧
    -- only the claimer submits; a submission is repeated only after an answer that can be
    -- retried, which acceptance is not, and with the same bytes
    (∀ before after epoch party encoded answer,
      s.trace = before ++ .submitted epoch party encoded answer :: after →
        .claimed epoch party ∈ before ∧
        ∀ party' encoded' answer', .submitted epoch party' encoded' answer' ∈ after →
          party' = party ∧ encoded' = encoded ∧ answer.isRetryable = true) ∧
    -- one completion is retained per run, and none is polled past
    (s.pending.map Pending.runId).Nodup ∧
    (∀ before after epoch activation, s.trace = before ++ .polled epoch activation :: after →
      ∀ epoch', .claimed epoch' .lane ∈ before → Settled before epoch') ∧
    (∀ l s', (workerSystem encode definitions).step l s = some s' → s.pending ≠ [] →
      s'.flights.length = s.flights.length) ∧
    -- a run leaves the run map after the completion of its newest activation was accepted
    -- or that activation was taken by a watchdog
    (∀ l s' runId, (workerSystem encode definitions).step l s = some s' → runId ∈ s.runs →
      runId ∉ s'.runs → l = .discard ∨ ∃ epoch activation,
        .polled epoch activation ∈ s'.trace ∧ activation.runId = runId ∧ Newest s'.trace epoch ∧
          ((∃ party encoded, .submitted epoch party encoded .accepted ∈ s'.trace) ∨
            .claimed epoch .watchdog ∈ s'.trace)) := by
  have hkept := Adapter.kept_of_reachable hs
  have hallowed := hkept.core.allowed
  refine ⟨fun before after epoch party htrace => (hallowed before _ after htrace).2, ?_, ?_,
    fun before after epoch activation htrace => (hallowed before _ after htrace).2,
    fun l s' hstep => Adapter.step_polls hstep, ?_⟩
  · intro before after epoch party encoded answer htrace
    refine ⟨(hallowed before _ after htrace).1, fun party' encoded' answer' hmem => ?_⟩
    obtain ⟨middle, rest, rfl⟩ := List.append_of_mem hmem
    have hlater := hallowed (before ++ .submitted epoch party encoded answer :: middle)
      (.submitted epoch party' encoded' answer') rest (by simp [htrace])
    obtain ⟨hsame, hretry⟩ := hlater.2 party encoded answer (by simp)
    refine ⟨?_, hsame.symm, hretry⟩
    have hfirst : .submitted epoch party encoded answer ∈ s.trace := by simp [htrace]
    have hagain : .submitted epoch party' encoded' answer' ∈ s.trace := by simp [htrace]
    exact claimed_unique hallowed (claimed_of_submitted hallowed hagain)
      (claimed_of_submitted hallowed hfirst)
  · have hsingle := hkept.core.single
    match s.pending, hsingle with
    | [], _ => exact List.nodup_nil
    | [p], _ => exact List.nodup_singleton _
  · intro l s' runId hstep hin hout
    refine (Adapter.step_removes hstep hin hout).imp_right ?_
    rintro ⟨epoch, before, htrace⟩
    have hkept' := Adapter.kept_of_reachable (hs.step l hstep)
    obtain ⟨⟨activation, hpolled, hrun⟩, hnewest, hwhy, -⟩ := hkept'.core.allowed before _ [] htrace
    refine ⟨epoch, activation, htrace ▸ List.mem_append_left _ hpolled, hrun,
      htrace ▸ hnewest.note (by simp), ?_⟩
    rcases hwhy with ⟨party, encoded, hmem⟩ | hmem
    · exact .inl ⟨party, encoded, htrace ▸ List.mem_append_left _ hmem⟩
    · exact .inr (htrace ▸ List.mem_append_left _ hmem)

section Runs

def anyEncoder (_ : Completion) : Except ErrorView Bytes := .ok [2]

def startActivation : Activation where
  runId := [7]
  timestamp := none
  isReplaying := false
  historyLength := 1
  jobs := [.initializeWorkflow [9] [1] [] [48] 1 none]
  metadata := none

def nextActivation (job : ActivationJob) : Activation :=
  { startActivation with jobs := [job] }

def fineAnswers : Answers where
  translated := .ok ()
  observed := none
  decoded := .ok ()
  started := none
  activated := .ok ⟨⟨[7], [], none, none⟩, [2]⟩

/-- The completion of the first activation is accepted when it is retried; the second
is taken by a watchdog. -/
def claimedSchedule : List Label :=
  [.poll (.ready startActivation) .accepted, .execute fineAnswers, .claim,
    .submit (.rejected [] [] true), .withdraw, .poll .notReady .accepted,
    .poll (.ready (nextActivation (.fireTimer 1))) .accepted, .observe 0 1, .seize 0,
    .abandon 0 .accepted, .publish 0, .execute fineAnswers, .claim, .resume, .withdraw]

def claimedByBoth : Adapter :=
  ((workerSystem anyEncoder [[1]]).replay claimedSchedule .empty).get (by rfl)

theorem activation_completed_by_claimer_both :
    laneSubmissions 0 claimedByBoth.trace = [([2], .rejected [] [] true), ([2], .accepted)] ∧
      laneSubmissions 1 claimedByBoth.trace = [] ∧ claimedByBoth.runs = [] ∧
      (claimedByBoth.pending.map Pending.runId).Nodup :=
  ⟨by rfl, by rfl, by rfl, (activation_completed_by_claimer
    ((Lib.Transitions.Reachable.start (T := workerSystem anyEncoder [[1]]) rfl).replay
      (Option.some_get _).symm)).2.2.1⟩

end Runs

/-! ## A failed activation is reported once

The reservation is about queries to a cached run: one that raises goes through the handler of
`processOne`, which removes the run. The theorem is therefore about the runs in which no such query
raises, and the counterexample is a run with one. -/

/-- A run that is removed in a run whose queries return was not removed by a query-only
activation that failed. -/
theorem Adapter.step_spares {s' : Adapter} {l : Label} {runId : Bytes} (hkept : Kept encode True s')
    (hstep : s.step encode definitions l = some s') (hin : runId ∈ s.runs)
    (hout : runId ∉ s'.runs) :
    l = .discard ∨ ∃ epoch activation, .polled epoch activation ∈ s'.trace ∧
      activation.runId = runId ∧ Newest s'.trace epoch ∧
      ((queryOnlyIds activation).isSome = true →
        ∀ completion, .built epoch completion ∉ s'.trace) := by
  refine (step_removes hstep hin hout).imp_right ?_
  rintro ⟨epoch, before, htrace⟩
  obtain ⟨⟨activation, hpolled, hrun⟩, hnewest, -, hspares⟩ := hkept.core.allowed before _ [] htrace
  refine ⟨epoch, activation, htrace ▸ List.mem_append_left _ hpolled, hrun,
    htrace ▸ hnewest.note (by simp), fun hquery completion hbuilt => ?_⟩
  refine hspares trivial activation completion hpolled hquery ?_
  rw [htrace] at hbuilt
  simpa using hbuilt

theorem failureCompletion_shape (activation : Activation) (e : ErrorView) :
    (∀ queryIds, activation.jobs.map queryId? = queryIds.map some → queryIds ≠ [] →
      failureCompletion activation e = ⟨activation.runId,
        queryIds.map fun queryId => .queryResult queryId (.failed (failureOfError e)),
        none, none⟩) ∧
    ((∃ job ∈ activation.jobs, isRemoval job = true) →
      failureCompletion activation e = ⟨activation.runId, [], none, none⟩) ∧
    (¬ (activation.jobs ≠ [] ∧ ∀ job ∈ activation.jobs, (queryId? job).isSome = true) →
      (∀ job ∈ activation.jobs, isRemoval job = false) →
      failureCompletion activation e = ⟨activation.runId, [], some (failureOfError e), none⟩) := by
  refine ⟨fun queryIds hids hsome => ?_, ?_, fun hnot hkeeps => ?_⟩
  · simp [failureCompletion, queryOnlyIds_eq_some hids hsome]
  · rintro ⟨job, hjob, hremoval⟩
    have hnone : queryOnlyIds activation = none := by
      cases hids : queryOnlyIds activation with
      | none => rfl
      | some queryIds =>
        have hquery := (queryOnlyIds_isSome.mp (by rw [hids]; rfl)).2 job hjob
        cases job with
        | removeFromCache => cases hquery
        | _ => cases hremoval
    have hevicts : evicts activation = true := List.any_eq_true.mpr ⟨job, hjob, hremoval⟩
    simp [failureCompletion, hnone, hevicts]
  · have hnone : queryOnlyIds activation = none := by
      rw [← queryOnlyIds_isSome] at hnot
      simpa using hnot
    have hevicts : evicts activation = false := by simpa [evicts] using hkeeps
    simp [failureCompletion, hnone, hevicts]

/-- **A failed activation is replaced once**: every failure builds one replacement completion, and
when the lane is done with the activation the replacement was submitted once, unless it could not be
encoded or the watchdog has the claim. Its shape depends on the jobs: a failure for every query,
nothing for an eviction, a task failure otherwise. A query-only activation that failed does not
remove its run. -/
theorem failed_activation_replaced_once
    (hs : (workerSystem encode definitions).ReachableIf (fun s l => s.queriesReturn l = true) s) :
    -- every way to fail builds one replacement
    (∀ epoch flight answers e s', s.lane = .executing epoch → s.flights[epoch]? = some flight →
      Fails definitions s.runs flight.activation answers e →
      (workerSystem encode definitions).step (.execute answers) s = some s' →
      s'.trace = s.trace ++ [.built epoch (failureCompletion flight.activation e)]) ∧
    (∀ before after epoch completion, s.trace = before ++ .built epoch completion :: after →
      ∀ completion', .built epoch completion' ∉ before) ∧
    -- when the lane is done with the activation, it has submitted the replacement once, unless
    -- that could not be encoded or the watchdog has the claim
    (∀ before after epoch, s.trace = before ++ .finished epoch :: after →
      (.claimed epoch .watchdog ∈ before → laneSubmissions epoch before = []) ∧
      (.claimed epoch .watchdog ∉ before → ∀ completion, .built epoch completion ∈ before →
        match encodeSubmission encode completion with
        | .ok encoded => ∃ answer, laneSubmissions epoch before = [(encoded, answer)]
        | .error _ => laneSubmissions epoch before = [])) ∧
    -- the shape of a replacement: queries only, an eviction, anything else
    (∀ activation e,
      (∀ queryIds, activation.jobs.map queryId? = queryIds.map some → queryIds ≠ [] →
        failureCompletion activation e = ⟨activation.runId,
          queryIds.map fun queryId => .queryResult queryId (.failed (failureOfError e)),
          none, none⟩) ∧
      ((∃ job ∈ activation.jobs, isRemoval job = true) →
        failureCompletion activation e = ⟨activation.runId, [], none, none⟩) ∧
      (¬ (activation.jobs ≠ [] ∧ ∀ job ∈ activation.jobs, (queryId? job).isSome = true) →
        (∀ job ∈ activation.jobs, isRemoval job = false) →
        failureCompletion activation e = ⟨activation.runId, [], some (failureOfError e), none⟩)) ∧
    -- a run that leaves the run map does so for its newest activation, which is not a
    -- query-only one that failed
    (∀ l s' runId, s.queriesReturn l = true → (workerSystem encode definitions).step l s = some s' →
      runId ∈ s.runs → runId ∉ s'.runs → l = .discard ∨ ∃ epoch activation,
        .polled epoch activation ∈ s'.trace ∧ activation.runId = runId ∧ Newest s'.trace epoch ∧
        ((queryOnlyIds activation).isSome = true →
          ∀ completion, .built epoch completion ∉ s'.trace)) := by
  have hkept := Adapter.kept_of_queriesReturn hs
  have hallowed := hkept.core.allowed
  refine ⟨?_, fun before after epoch completion htrace => (hallowed before _ after htrace).1, ?_,
    failureCompletion_shape, ?_⟩
  · intro epoch flight answers e s' hlane hflight hfails hstep
    obtain ⟨removeRun, runs', hrun, -⟩ := processOne_of_fails encode epoch hfails
    simp only [workerSystem, Adapter.step, hlane, hflight, Adapter.execute, hrun] at hstep
    obtain rfl := Option.some.inj hstep
    rfl
  · intro before after epoch htrace
    obtain ⟨hlost, hwon⟩ := hallowed before _ after htrace
    have hbefore : Justified (Allowed encode True) before := by
      rw [htrace] at hallowed
      exact hallowed.of_append
    constructor
    · intro hwatchdog
      refine (hlost fun hlane => ?_).2
      cases claimed_unique hbefore hlane hwatchdog
    · intro hno completion hbuilt
      refine hwon ?_ completion hbuilt
      by_contra hunclaimed
      exact hno (hlost hunclaimed).1
  · intro l s' runId hreturns hstep hin hout
    exact Adapter.step_spares (Adapter.kept_of_queriesReturn (hs.step l hreturns hstep))
      hstep hin hout

section QueryRuns

def queryActivation : Activation := nextActivation (.queryWorkflow [3] [4] [] [])

def failedQuerySchedule (failed : Called EncodedCompletion) : List Label :=
  [.poll (.ready startActivation) .accepted, .execute fineAnswers, .claim, .submit .accepted,
    .withdraw, .poll (.ready queryActivation) .accepted,
    .execute { fineAnswers with activated := failed }, .claim, .submit .accepted, .withdraw]

def queryError : ErrorView := makeError [] [5] [6]

def failedQuery : Adapter :=
  ((workerSystem anyEncoder [[1]]).replayIf (fun s l => s.queriesReturn l = true)
    (failedQuerySchedule (.error queryError)) .empty).get (by rfl)

theorem failed_activation_replaced_once_query :
    laneSubmissions 1 failedQuery.trace = [([2], .accepted)] ∧ failedQuery.runs = [[7]] ∧
      ∀ before after epoch completion,
        failedQuery.trace = before ++ .built epoch completion :: after →
        ∀ completion', .built epoch completion' ∉ before :=
  ⟨by rfl, by rfl, (failed_activation_replaced_once
    ((Lib.Transitions.ReachableIf.start (T := workerSystem anyEncoder [[1]]) rfl).replay
      (Option.some_get _).symm)).2.1⟩

/-- A query to a cached run raises, its failure is accepted, and the run is gone. -/
theorem raising_query_removes_run :
    ∃ s e, (workerSystem anyEncoder [[1]]).Reachable s ∧
      (queryOnlyIds queryActivation).isSome = true ∧
      s.trace = [.polled 0 startActivation, .claimed 0 .lane, .submitted 0 .lane [2] .accepted,
        .finished 0, .polled 1 queryActivation, .built 1 (failureCompletion queryActivation e),
        .claimed 1 .lane, .submitted 1 .lane [2] .accepted, .removed 1 [7], .finished 1] ∧
      s.runs = [] :=
  ⟨((workerSystem anyEncoder [[1]]).replay (failedQuerySchedule (.raised [5])) .empty).get (by rfl),
    exceptionError (text "$.workflow_execution") [5],
    (Lib.Transitions.Reachable.start rfl).replay (Option.some_get _).symm, by rfl, by rfl, by rfl⟩

end QueryRuns

end OcamlTemporal.Worker
