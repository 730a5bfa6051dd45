import Mathlib.Data.List.Perm.Basic
import OcamlTemporal.Lib.Outcome
import OcamlTemporal.Protocol.Translation

/-!
# OcamlTemporal.Sound.Translation

Which activations are translated. The loop of `translate_activation` decides job by job, from the
kinds it has seen with a sequence number; **`translation_ok`** says that this is the rule for the
activation as a whole (`Distinct`), in which the order of the jobs plays no part.
-/

namespace OcamlTemporal.Protocol.Translation

open Lib (Sim)

/-- The operation that a job resolves, if it is one that does. -/
def resolves : ActivationJob → Option (SequenceKind × Int64)
  | .resolveActivity seq _ => some (.activity, seq)
  | .resolveChildWorkflowStart seq _ => some (.childStart, seq)
  | .resolveChildWorkflow seq _ => some (.childResult, seq)
  | .resolveSignalExternalWorkflow seq _ => some (.externalSignal, seq)
  | .resolveRequestCancelExternalWorkflow seq _ => some (.externalCancel, seq)
  | .fireTimer seq => some (.timer, seq)
  | _ => none

/-- The kinds of the jobs that resolve a sequence number, in the order of the jobs. -/
def kindsAt (jobs : List ActivationJob) (sequence : Int64) : List SequenceKind :=
  ((jobs.filterMap resolves).filter (·.2 = sequence)).map Prod.fst

/-- At most one job, or the start and the result of one child. -/
def Single (kinds : List SequenceKind) : Prop :=
  kinds.length ≤ 1 ∨ kinds.Perm [.childStart, .childResult]

/-- Every sequence number is resolved by at most one job, or by the two of one child. -/
def Distinct (jobs : List ActivationJob) : Prop := ∀ sequence, Single (kindsAt jobs sequence)

/-! ## Jobs -/

section Jobs

variable (p q : Bytes)

theorem sim_validateSequence (sequence : Int64) :
    Sim (fun _ => True) (Durations.validateSequence p sequence)
      (Durations.validateSequence q sequence) := by
  intro a h
  simp only [Durations.validateSequence] at h ⊢
  split_ifs at h ⊢
  exact ⟨h, trivial⟩

theorem sim_validateIdentifier (value : Bytes) :
    Sim (fun _ => True) (validateIdentifier p value) (validateIdentifier q value) := by
  intro a h
  simp only [validateIdentifier] at h ⊢
  split_ifs at h ⊢
  exact ⟨h, trivial⟩

theorem sim_validateBoundedText (value : Bytes) :
    Sim (fun _ => True) (validateBoundedText p value) (validateBoundedText q value) := by
  intro a h
  simp only [validateBoundedText] at h ⊢
  split_ifs at h ⊢
  exact ⟨h, trivial⟩

theorem sim_validateHeaders (headers : PayloadMap) :
    Sim (fun _ => True) (validateHeaders p headers) (validateHeaders q headers) := by
  induction headers with
  | nil => exact Sim.rfl
  | cons entry rest ih => exact (sim_validateIdentifier _ _ _).bind fun _ _ => ih

theorem sim_millisecondsOfDuration (duration : Duration) :
    Sim (fun _ => True) (Durations.millisecondsOfDuration p duration)
      (Durations.millisecondsOfDuration q duration) := by
  intro a h
  simp only [Durations.millisecondsOfDuration] at h ⊢
  split_ifs at h ⊢
  exact ⟨h, trivial⟩

theorem sim_throw {α : Type} {P : α → Prop} {c : Prop} [Decidable c] {e e' : Control.Error}
    {x y : Except Control.Error α} (h : Sim P x y) :
    Sim P (if c then throw e else x) (if c then throw e' else y) := by
  refine Sim.guard fun hc => ?_
  rw [if_neg hc]
  exact h

/-- Where a job stands plays no part in its translation, and the sequence number that the loop is
told is the one that the job resolves. -/
theorem runtimeJob_sim (job : ActivationJob) :
    Sim (fun translated => translated.sequence = resolves job) (runtimeJob p job)
      (runtimeJob q job) := by
  cases job with
  | initializeWorkflow _ _ _ _ _ _ =>
    exact (sim_validateIdentifier _ _ _).bind fun _ _ =>
      (sim_validateIdentifier _ _ _).bind fun _ _ => sim_throw (Sim.pure rfl)
  | resolveActivity seq result =>
    cases result with
    | backoff attempt backoffDuration originalScheduleTime =>
      exact (sim_validateSequence _ _ _).bind fun _ _ => sim_throw
        ((sim_millisecondsOfDuration _ _ _).bind fun _ _ => Sim.pure rfl)
    | completed _ => exact (sim_validateSequence _ _ _).bind fun _ _ => Sim.pure rfl
    | failed _ => exact (sim_validateSequence _ _ _).bind fun _ _ => Sim.pure rfl
    | cancelled _ => exact (sim_validateSequence _ _ _).bind fun _ _ => Sim.pure rfl
  | resolveChildWorkflowStart seq result =>
    refine (sim_validateSequence _ _ _).bind fun _ _ => ?_
    cases result with
    | succeeded runId =>
      exact ((sim_validateIdentifier _ _ _).bind fun _ _ => Sim.rfl).bind fun _ _ =>
        Sim.pure rfl
    | failed _ _ _ => exact Sim.pure rfl
    | cancelled _ => exact Sim.pure rfl
  | resolveChildWorkflow _ _ => exact (sim_validateSequence _ _ _).bind fun _ _ => Sim.pure rfl
  | resolveSignalExternalWorkflow _ _ =>
    exact (sim_validateSequence _ _ _).bind fun _ _ => Sim.pure rfl
  | resolveRequestCancelExternalWorkflow _ _ =>
    exact (sim_validateSequence _ _ _).bind fun _ _ => Sim.pure rfl
  | queryWorkflow _ _ _ _ =>
    exact (sim_validateIdentifier _ _ _).bind fun _ _ =>
      (sim_validateIdentifier _ _ _).bind fun _ _ =>
        (sim_validateHeaders _ _ _).bind fun _ _ => Sim.pure rfl
  | doUpdate _ _ _ _ _ _ _ =>
    exact (sim_validateIdentifier _ _ _).bind fun _ _ =>
      (sim_validateIdentifier _ _ _).bind fun _ _ =>
        (sim_validateIdentifier _ _ _).bind fun _ _ =>
          (sim_validateIdentifier _ _ _).bind fun _ _ =>
            (sim_validateBoundedText _ _ _).bind fun _ _ => sim_throw
              ((sim_validateHeaders _ _ _).bind fun _ _ => Sim.pure rfl)
  | signalWorkflow _ _ _ _ =>
    exact (sim_validateIdentifier _ _ _).bind fun _ _ =>
      (sim_validateBoundedText _ _ _).bind fun _ _ =>
        (sim_validateHeaders _ _ _).bind fun _ _ => Sim.pure rfl
  | notifyHasPatch _ => exact (sim_validateIdentifier _ _ _).bind fun _ _ => Sim.pure rfl
  | updateRandomSeed _ => exact Sim.pure rfl
  | fireTimer _ => exact (sim_validateSequence _ _ _).bind fun _ _ => Sim.pure rfl
  | cancelWorkflow _ => exact Sim.pure rfl
  | removeFromCache _ _ => exact Sim.pure rfl

end Jobs

/-! ## The table -/

theorem Single.of_append {kinds more : List SequenceKind} (h : Single (kinds ++ more)) :
    Single kinds := by
  rcases h with h | h
  · left
    simp only [List.length_append] at h
    omega
  · have hlength := h.length_eq
    cases more with
    | nil => exact .inr (by simpa using h)
    | cons kind more =>
      left
      simp only [List.length_append, List.length_cons, List.length_nil] at hlength
      omega

theorem single_concat {kinds : List SequenceKind} {kind : SequenceKind} :
    Single (kinds ++ [kind]) ↔ kinds = [] ∨ childPairAllowed kind kinds.reverse = true := by
  cases kinds with
  | nil => simp [Single]
  | cons a kinds =>
    cases kinds with
    | nil => cases a <;> cases kind <;> simp +decide [Single]
    | cons b kinds =>
      have hlong : ¬ childPairAllowed kind ((a :: b :: kinds).reverse) = true := by
        have hlength : 2 ≤ ((a :: b :: kinds).reverse).length := by simp
        generalize (a :: b :: kinds).reverse = previous at hlength
        cases kind <;> (rcases previous with _ | ⟨_, _ | ⟨_, _⟩⟩ <;> simp_all [childPairAllowed])
      refine iff_of_false ?_ (by simpa using hlong)
      rintro (h | h)
      · simp at h
      · have hlength := h.length_eq
        simp at hlength

theorem childPairAllowed_notMem {kind : SequenceKind} {previous : List SequenceKind}
    (h : childPairAllowed kind previous = true) : kind ∉ previous := by
  unfold childPairAllowed at h
  split at h
  · decide
  · decide
  · cases h

theorem kindsAt_append (jobs jobs' : List ActivationJob) (sequence : Int64) :
    kindsAt (jobs ++ jobs') sequence = kindsAt jobs sequence ++ kindsAt jobs' sequence := by
  simp [kindsAt]

theorem Distinct.of_append {jobs jobs' : List ActivationJob} (h : Distinct (jobs ++ jobs')) :
    Distinct jobs := fun sequence => (kindsAt_append jobs jobs' sequence ▸ h sequence).of_append

/-- The table has the kinds of the jobs that are done. -/
def Tracks (seen : Seen) (done : List ActivationJob) : Prop :=
  ∀ sequence, (seen sequence).getD [] = (kindsAt done sequence).reverse

/-- One job: the table takes it exactly if the rule still holds. -/
theorem noteSequence_iff {seen : Seen} {done : List ActivationJob} (htracks : Tracks seen done)
    (hdone : Distinct done) (path : Bytes) (job : ActivationJob) :
    (Distinct (done ++ [job]) → ∃ seen', noteSequence path seen (resolves job) = .ok seen' ∧
        Tracks seen' (done ++ [job])) ∧
      (¬ Distinct (done ++ [job]) → ∃ e, noteSequence path seen (resolves job) = .error e) := by
  cases hjob : resolves job with
  | none =>
    have hsame : ∀ sequence, kindsAt (done ++ [job]) sequence = kindsAt done sequence := by
      intro sequence
      simp [kindsAt, hjob]
    have hdistinct : Distinct (done ++ [job]) := fun sequence => hsame sequence ▸ hdone sequence
    refine ⟨fun _ => ⟨seen, rfl, fun sequence => ?_⟩, fun h => absurd hdistinct h⟩
    rw [hsame sequence]
    exact htracks sequence
  | some operation =>
    obtain ⟨kind, sequence⟩ := operation
    have hat : kindsAt (done ++ [job]) sequence = kindsAt done sequence ++ [kind] := by
      simp [kindsAt, hjob]
    have hothers : ∀ other, other ≠ sequence →
        kindsAt (done ++ [job]) other = kindsAt done other := by
      intro other hne
      simp [kindsAt, hjob, hne.symm]
    have hdistinct : Distinct (done ++ [job]) ↔
        kindsAt done sequence = [] ∨
          childPairAllowed kind (kindsAt done sequence).reverse = true := by
      rw [← single_concat, ← hat]
      refine ⟨fun h => h sequence, fun h other => ?_⟩
      by_cases hne : other = sequence
      · exact hne ▸ h
      · exact hothers other hne ▸ hdone other
    have hprevious := htracks sequence
    simp only [noteSequence, hprevious, hdistinct]
    refine ⟨fun hrule => ?_, fun hrule => ?_⟩
    · have hkept : ¬ ((kindsAt done sequence).reverse ≠ [] ∧
          (!childPairAllowed kind (kindsAt done sequence).reverse) = true) := by
        rcases hrule with hnil | hallowed
        · simp [hnil]
        · simp [hallowed]
      have hnew : kind ∉ (kindsAt done sequence).reverse := by
        rcases hrule with hnil | hallowed
        · simp [hnil]
        · exact childPairAllowed_notMem hallowed
      rw [if_neg hkept, if_neg hnew]
      refine ⟨_, rfl, fun other => ?_⟩
      by_cases hne : other = sequence
      · subst hne
        simp [hat]
      · rw [Function.update_of_ne hne, hothers other hne]
        exact htracks other
    · rw [not_or] at hrule
      exact ⟨_, if_pos ⟨by simpa using hrule.1, by simpa using hrule.2⟩⟩

/-! ## Activations -/

/-- The jobs of the runtime are the translations of the jobs, one for one. -/
def Follows (jobs : List ActivationJob) (runtime : List RuntimeJob) : Prop :=
  List.Forall₂ (fun job runtime =>
    ∃ path translated, runtimeJob path job = .ok translated ∧ translated.runtime = runtime)
    jobs runtime

/-- The loop, from any point of it on. -/
theorem translateJobs_iff {seen : Seen} {done : List ActivationJob} (htracks : Tracks seen done)
    (hdone : Distinct done) (facts : TranslatedActivation) (index : Nat) (jobs : List ActivationJob)
    (hjobs : ∀ job ∈ jobs, ∃ path translated, runtimeJob path job = .ok translated) :
    (Distinct (done ++ jobs) → ∃ result runtime, translateJobs seen facts index jobs = .ok result ∧
        result.jobs = facts.jobs.reverse ++ runtime ∧ Follows jobs runtime) ∧
      (¬ Distinct (done ++ jobs) → ∃ e, translateJobs seen facts index jobs = .error e) := by
  induction jobs generalizing seen done facts index with
  | nil =>
    rw [List.append_nil]
    exact ⟨fun _ => ⟨_, [], rfl, (List.append_nil _).symm, .nil⟩, fun h => absurd hdone h⟩
  | cons job rest ih =>
    obtain ⟨hjob, hrest⟩ := List.forall_mem_cons.mp hjobs
    obtain ⟨path, translated, hpath⟩ := hjob
    obtain ⟨htranslated, hsequence⟩ := runtimeJob_sim path (jobPath index) job translated hpath
    have hsplit : done ++ job :: rest = (done ++ [job]) ++ rest := by simp
    have hnote := noteSequence_iff htracks hdone (jobPath index) job
    rw [← hsequence] at hnote
    by_cases hnext : Distinct (done ++ [job])
    · obtain ⟨seen', hseen', htracks'⟩ := hnote.1 hnext
      have hloop := ih htracks' hnext
        { facts with
          initialization := translated.initialization.or facts.initialization
          cancellationReason := translated.cancellationReason.or facts.cancellationReason
          cacheRemoval := translated.cacheRemoval.or facts.cacheRemoval
          jobs := translated.runtime :: facts.jobs } (index + 1) hrest
      rw [← hsplit] at hloop
      simp only [translateJobs, htranslated, hseen', bind, Except.bind]
      refine ⟨fun hall => ?_, hloop.2⟩
      obtain ⟨result, runtime, hresult, hruntime, hfollows⟩ := hloop.1 hall
      refine ⟨result, translated.runtime :: runtime, hresult, ?_,
        .cons ⟨path, translated, hpath, rfl⟩ hfollows⟩
      simpa using hruntime
    · obtain ⟨e, he⟩ := hnote.2 hnext
      refine ⟨fun hall => ?_, fun _ => ⟨e, ?_⟩⟩
      · rw [hsplit] at hall
        exact absurd hall.of_append hnext
      · simp only [translateJobs, htranslated, he, bind, Except.bind]

/-- **Which activations are translated.** If every job of an activation is translated on its own and
the canonical encoder accepts the activation, it is translated exactly if every sequence number is
resolved by at most one job, or by one child start and one child result; and then the jobs of the
runtime are those of the activation, in their order. -/
theorem translation_ok (encodeActivation : Activation → Except Control.Error Bytes)
    (value : Activation)
    (hjobs : ∀ job ∈ value.jobs, ∃ path translated, runtimeJob path job = .ok translated)
    (hencoded : ∃ bytes, encodeActivation value = .ok bytes) :
    ((∃ result, translateActivation encodeActivation value = .ok result) ↔ Distinct value.jobs) ∧
      ∀ result, translateActivation encodeActivation value = .ok result →
        result.jobs.length = value.jobs.length ∧ Follows value.jobs result.jobs := by
  obtain ⟨bytes, hbytes⟩ := hencoded
  have htracks : Tracks (fun _ => none) [] := fun _ => rfl
  have hloop := translateJobs_iff htracks (fun _ => .inl (Nat.zero_le _))
    { runId := value.runId
      timestamp := value.timestamp
      isReplaying := value.isReplaying
      historyLength := value.historyLength
      metadata := value.metadata
      initialization := none
      cancellationReason := none
      cacheRemoval := none
      jobs := []
      source := value } 0 value.jobs hjobs
  rw [List.nil_append] at hloop
  simp only [translateActivation, hbytes, bind, Except.bind]
  by_cases hdistinct : Distinct value.jobs
  · obtain ⟨result, runtime, hresult, hruntime, hfollows⟩ := hloop.1 hdistinct
    refine ⟨iff_of_true ⟨result, hresult⟩ hdistinct, fun result' hresult' => ?_⟩
    obtain rfl : result = result' := Except.ok.inj (hresult.symm.trans hresult')
    have hjobs : result.jobs = runtime := hruntime
    rw [hjobs]
    exact ⟨hfollows.length_eq.symm, hfollows⟩
  · obtain ⟨e, he⟩ := hloop.2 hdistinct
    refine ⟨iff_of_false ?_ hdistinct, fun result' hresult' => nomatch he.symm.trans hresult'⟩
    rintro ⟨result, hresult⟩
    exact nomatch he.symm.trans hresult

/-- An activation with a child that has started and ended, and a timer. -/
def childAndTimer : Activation :=
  { runId := text "run", timestamp := none, isReplaying := false, historyLength := 3
    jobs := [.resolveChildWorkflow 1 (.completed none), .fireTimer 2,
      .resolveChildWorkflowStart 1 (.succeeded (text "child"))]
    metadata := none }

theorem translation_ok_childAndTimer :
    ((∃ result, translateActivation (fun _ => .ok []) childAndTimer = .ok result) ↔
        Distinct childAndTimer.jobs) ∧
      ∀ result, translateActivation (fun _ => .ok []) childAndTimer = .ok result →
        result.jobs.length = childAndTimer.jobs.length ∧
          Follows childAndTimer.jobs result.jobs := by
  have hjobs : ∀ job ∈ childAndTimer.jobs, (runtimeJob [] job).isOk = true := by
    simp only [childAndTimer, List.forall_mem_cons]
    exact ⟨by decide +kernel, by decide +kernel, by decide +kernel, List.forall_mem_nil _⟩
  exact translation_ok (fun _ => .ok []) childAndTimer
    (fun job hjob => ⟨[], Lib.exists_of_isOk (hjobs job hjob)⟩) ⟨[], rfl⟩

end OcamlTemporal.Protocol.Translation
