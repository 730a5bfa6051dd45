import OcamlTemporal.Worker.Adapter

/-!
# OcamlTemporal.Worker.Processing

**Every way to fail builds one replacement.** `Fails` lists the ways in which
processing an activation can fail, each with the error it reports, and
`processOne_of_fails` says that every one of them builds exactly one replacement
completion; `processOne_of_succeeds` says that otherwise none is built. A failure
that is typed leaves the run of a query-only activation alone
(`processOne_keeps_run`); the handler for exceptions does not look at that.
-/

namespace OcamlTemporal.Worker

open OcamlTemporal.Protocol

/-! ## What processing an activation builds -/

section Code

variable {α β : Type} (w : Work)

@[simp] theorem run_pure (a : α) : (pure a : LaneCode α).run w = (.ok a, w) := rfl

@[simp] theorem run_throw (message : Bytes) :
    (throw message : LaneCode α).run w = (.error message, w) := rfl

@[simp] theorem run_throw_bind (message : Bytes) (f : α → LaneCode β) :
    (throw message >>= f : LaneCode β).run w = (.error message, w) := rfl

@[simp] theorem run_get_bind (f : Work → LaneCode β) :
    (get >>= f : LaneCode β).run w = (f w).run w := rfl

@[simp] theorem run_modify_bind (g : Work → Work) (f : Unit → LaneCode β) :
    (modify g >>= f : LaneCode β).run w = (f ()).run (g w) := rfl

@[simp] theorem call_ok (a : α) : (Called.ok a).call = pure (.ok a) := rfl

@[simp] theorem call_error (e : ErrorView) : (Called.error e : Called α).call = pure (.error e) :=
  rfl

@[simp] theorem call_raised (message : Bytes) :
    (Called.raised message : Called α).call = throw message := rfl

@[simp] theorem run_retireWithFailure (encode : Completion → Except ErrorView Bytes) (epoch : Nat)
    (removeRun : Bool) (activation : Activation) (e : ErrorView) :
    (retireWithFailure encode epoch removeRun activation e).run w =
      (.ok (failurePending encode epoch removeRun activation e),
        { w with built := w.built ++ [failureCompletion activation e] }) := rfl

end Code

section Processing

variable {encode : Completion → Except ErrorView Bytes} {definitions : List Bytes} {epoch : Nat}
  {activation : Activation} {answers : Answers} {runs : List Bytes} {e : ErrorView}

/-- The activation was translated and observed, its run is not gone already if it is
evicted, and its jobs say this about initialization. -/
def Accepts (runs : List Bytes) (activation : Activation) (answers : Answers)
    (init : Option Initialization) : Prop :=
  answers.translated = .ok () ∧ answers.observed = none ∧
    ¬ (evicts activation = true ∧ activation.runId ∉ runs) ∧ initialization activation = .ok init

def Registers (definitions runs : List Bytes) (activation : Activation) (answers : Answers)
    (init : Initialization) : Prop :=
  Accepts runs activation answers (some init) ∧ activation.runId ∉ runs ∧
    findDefinition definitions init.workflowType = .ok ()

def Enters (definitions runs : List Bytes) (activation : Activation) (answers : Answers) : Prop :=
  (∃ init, Registers definitions runs activation answers init ∧
      decodeInput init.arguments answers.decoded = .ok () ∧ answers.started = none) ∨
    (Accepts runs activation answers none ∧ activation.runId ∈ runs)

/-- The ways in which processing an activation can fail, with the error of each. -/
inductive Fails (definitions runs : List Bytes) (activation : Activation) (answers : Answers) :
    ErrorView → Prop
  | untranslated {e : ErrorView} (h : answers.translated = .error e) :
      Fails definitions runs activation answers e
  | translationRaised {message : Bytes} (h : answers.translated = .raised message) :
      Fails definitions runs activation answers
        (exceptionError (text "$.workflow_execution") message)
  | observerRaised {message : Bytes} (h : answers.translated = .ok ())
      (hraised : answers.observed = some message) :
      Fails definitions runs activation answers
        (exceptionError (text "$.activation.replay_metadata") message)
  | uninitializable {e : ErrorView} (h : answers.translated = .ok ())
      (hobserved : answers.observed = none)
      (hcached : ¬ (evicts activation = true ∧ activation.runId ∉ runs))
      (herror : initialization activation = .error e) : Fails definitions runs activation answers e
  | duplicateRun {init : Initialization} (h : Accepts runs activation answers (some init))
      (hrun : activation.runId ∈ runs) :
      Fails definitions runs activation answers
        (makeError (text "$.run_id") (text "duplicate_run_id")
          (text "workflow run is already present in the execution registry"))
  | unknownType {init : Initialization} {e : ErrorView}
      (h : Accepts runs activation answers (some init)) (hrun : activation.runId ∉ runs)
      (hunknown : findDefinition definitions init.workflowType = .error e) :
      Fails definitions runs activation answers e
  | undecodable {init : Initialization} {e : ErrorView}
      (h : Registers definitions runs activation answers init)
      (herror : decodeInput init.arguments answers.decoded = .error e) :
      Fails definitions runs activation answers e
  | decoderRaised {init : Initialization} {message : Bytes}
      (h : Registers definitions runs activation answers init)
      (hraised : decodeInput init.arguments answers.decoded = .raised message) :
      Fails definitions runs activation answers
        (exceptionError (text "$.workflow_execution") message)
  | startRaised {init : Initialization} {message : Bytes}
      (h : Registers definitions runs activation answers init)
      (hdecoded : decodeInput init.arguments answers.decoded = .ok ())
      (hraised : answers.started = some message) :
      Fails definitions runs activation answers
        (exceptionError (text "$.workflow_execution") message)
  | unknownRun (h : Accepts runs activation answers none) (hrun : activation.runId ∉ runs) :
      Fails definitions runs activation answers
        (makeError (text "$.run_id") (text "unknown_run_id")
          (text "activation does not identify a registered running workflow"))
  | activationFailed {e : ErrorView} (h : Enters definitions runs activation answers)
      (herror : answers.activated = .error e) : Fails definitions runs activation answers e
  | activationRaised {message : Bytes} (h : Enters definitions runs activation answers)
      (hraised : answers.activated = .raised message) :
      Fails definitions runs activation answers
        (exceptionError (text "$.workflow_execution") message)

/-- The handler of `process_one` does nothing if nothing raised. -/
theorem processOne_of_returns {p : Pending} {w w' : Work}
    (h : (processOneUnsafe encode definitions epoch activation answers).run w = (.ok p, w')) :
    (processOne encode definitions epoch activation answers).run w = (.ok p, w') := by
  have h' : processOneUnsafe encode definitions epoch activation answers w = (.ok p, w') := h
  simp only [processOne, tryCatch, tryCatchThe, MonadExceptOf.tryCatch, ExceptT.tryCatch,
    ExceptT.run,
    ExceptT.mk, bind, StateT.bind, h']
  rfl

/-- The handler of `process_one` builds a failure completion. -/
theorem processOne_of_raises {message : Bytes} {w w' : Work}
    (h : (processOneUnsafe encode definitions epoch activation answers).run w =
      (.error message, w')) :
    (processOne encode definitions epoch activation answers).run w =
      (.ok (failurePending encode epoch (decide (activation.runId ∈ w'.runs)) activation
          (exceptionError (text "$.workflow_execution") message)),
        { w' with built := w'.built ++
          [failureCompletion activation (exceptionError (text "$.workflow_execution") message)]
          }) := by
  have h' : processOneUnsafe encode definitions epoch activation answers w =
    (.error message, w') := h
  simp only [processOne, tryCatch, tryCatchThe, MonadExceptOf.tryCatch, ExceptT.tryCatch,
    ExceptT.run,
    ExceptT.mk, bind, StateT.bind, h']
  rfl

theorem unsafe_new {init : Initialization} (h : Accepts runs activation answers (some init)) :
    (processOneUnsafe encode definitions epoch activation answers).run ⟨runs, []⟩ =
      (processNew encode definitions epoch activation answers init).run ⟨runs, []⟩ := by
  obtain ⟨htranslated, hobserved, hcached, hinit⟩ := h
  simp [processOneUnsafe, htranslated, hobserved, notifyActivation, hcached, hinit]

theorem unsafe_cached (h : Accepts runs activation answers none) :
    (processOneUnsafe encode definitions epoch activation answers).run ⟨runs, []⟩ =
      (processCached encode epoch activation answers).run ⟨runs, []⟩ := by
  obtain ⟨htranslated, hobserved, hcached, hinit⟩ := h
  simp [processOneUnsafe, htranslated, hobserved, notifyActivation, hcached, hinit]

/-- Every failure builds one replacement completion. -/
theorem processOne_of_fails (encode : Completion → Except ErrorView Bytes) (epoch : Nat)
    (h : Fails definitions runs activation answers e) :
    ∃ removeRun runs', (processOne encode definitions epoch activation answers).run ⟨runs, []⟩ =
      (.ok (failurePending encode epoch removeRun activation e),
        ⟨runs', [failureCompletion activation e]⟩) ∧ runs ⊆ runs' := by
  have hraises : ∀ {message runs'}, runs ⊆ runs' →
      (processOneUnsafe encode definitions epoch activation answers).run ⟨runs, []⟩ =
        (.error message, ⟨runs', []⟩) → ∃ removeRun runs',
          (processOne encode definitions epoch activation answers).run ⟨runs, []⟩ =
            (.ok (failurePending encode epoch removeRun activation
                (exceptionError (text "$.workflow_execution") message)),
              ⟨runs', [failureCompletion activation
                (exceptionError (text "$.workflow_execution") message)]⟩) ∧ runs ⊆ runs' :=
    fun hsub h => ⟨_, _, processOne_of_raises h, hsub⟩
  have hsame := List.Subset.refl runs
  have hadded := List.subset_append_left runs [activation.runId]
  cases h with
  | untranslated h =>
    exact ⟨_, _, processOne_of_returns (by simp [processOneUnsafe, h]; rfl), hsame⟩
  | translationRaised h =>
    refine hraises hsame ?_
    simp [processOneUnsafe, h]
  | observerRaised h hraised =>
    exact ⟨_, _, processOne_of_returns
      (by simp [processOneUnsafe, h, hraised, notifyActivation]; rfl), hsame⟩
  | uninitializable h hobserved hcached herror =>
    exact ⟨_, _, processOne_of_returns
      (by simp [processOneUnsafe, h, hobserved, notifyActivation, hcached, herror]; rfl), hsame⟩
  | duplicateRun h hrun =>
    exact ⟨_, _, processOne_of_returns (by rw [unsafe_new h]; simp [processNew, hrun]; rfl), hsame⟩
  | unknownType h hrun hunknown =>
    exact ⟨_, _, processOne_of_returns
      (by rw [unsafe_new h]; simp [processNew, hrun, hunknown]; rfl), hsame⟩
  | undecodable h herror =>
    obtain ⟨h, hrun, hfound⟩ := h
    exact ⟨_, _, processOne_of_returns
      (by rw [unsafe_new h]; simp [processNew, hrun, hfound, herror]; rfl), hsame⟩
  | decoderRaised h hraised =>
    obtain ⟨h, hrun, hfound⟩ := h
    refine hraises hsame ?_
    rw [unsafe_new h]
    simp [processNew, hrun, hfound, hraised]
  | startRaised h hdecoded hraised =>
    obtain ⟨h, hrun, hfound⟩ := h
    refine hraises hsame ?_
    rw [unsafe_new h]
    simp [processNew, hrun, hfound, hdecoded, hraised]
  | unknownRun h hrun =>
    exact ⟨_, _, processOne_of_returns
      (by rw [unsafe_cached h]; simp [processCached, hrun]; rfl), hsame⟩
  | activationFailed h herror =>
    rcases h with ⟨init, ⟨h, hrun, hfound⟩, hdecoded, hstarted⟩ | ⟨h, hrun⟩
    · exact ⟨_, _, processOne_of_returns
        (by rw [unsafe_new h]; simp [processNew, hrun, hfound, hdecoded, hstarted, herror]; rfl),
        hadded⟩
    · exact ⟨_, _, processOne_of_returns
        (by rw [unsafe_cached h]; simp [processCached, hrun, herror]; rfl), hsame⟩
  | activationRaised h hraised =>
    rcases h with ⟨init, ⟨h, hrun, hfound⟩, hdecoded, hstarted⟩ | ⟨h, hrun⟩
    · refine hraises hadded ?_
      rw [unsafe_new h]
      simp [processNew, hrun, hfound, hdecoded, hstarted, hraised]
    · refine hraises hsame ?_
      rw [unsafe_cached h]
      simp [processCached, hrun, hraised]

/-- The record of an activation that did not fail. -/
structure Succeeds (epoch : Nat) (activation : Activation) (p : Pending) : Prop where
  runId : p.runId = activation.runId
  epoch : p.epoch = epoch
  unrefused : p.retryRefusal = none
  completed : ∃ count terminal evicted, p.result = .completed count terminal evicted

theorem processOne_of_succeeds (encode : Completion → Except ErrorView Bytes) (epoch : Nat)
    (h : ∀ e, ¬ Fails definitions runs activation answers e) :
    ∃ p runs', (processOne encode definitions epoch activation answers).run ⟨runs, []⟩ =
      (.ok p, ⟨runs', []⟩) ∧ Succeeds epoch activation p ∧ runs ⊆ runs' := by
  have hcompleted : ∀ checked, Succeeds epoch activation
      (completedPending epoch activation checked) := fun _ => ⟨rfl, rfl, rfl, _, _, _, rfl⟩
  have hadded := List.subset_append_left runs [activation.runId]
  cases ht : answers.translated with
  | error e => exact absurd (.untranslated ht) (h _)
  | raised message => exact absurd (.translationRaised ht) (h _)
  | ok value =>
    cases ho : answers.observed with
    | some message => exact absurd (.observerRaised ht ho) (h _)
    | none =>
      by_cases hc : evicts activation = true ∧ activation.runId ∉ runs
      · exact ⟨evictionPending encode epoch activation, runs, processOne_of_returns
          (by simp [processOneUnsafe, ht, ho, notifyActivation, hc]),
          ⟨rfl, rfl, rfl, _, _, _, rfl⟩, List.Subset.refl runs⟩
      · cases hi : initialization activation with
        | error e => exact absurd (.uninitializable ht ho hc hi) (h _)
        | ok init =>
          have haccepts : Accepts runs activation answers init := ⟨ht, ho, hc, hi⟩
          cases init with
          | none =>
            by_cases hrun : activation.runId ∈ runs
            · have henters : Enters definitions runs activation answers := .inr ⟨haccepts, hrun⟩
              cases ha : answers.activated with
              | error e => exact absurd (.activationFailed henters ha) (h _)
              | raised message => exact absurd (.activationRaised henters ha) (h _)
              | ok checked =>
                exact ⟨_, runs, processOne_of_returns
                  (by rw [unsafe_cached haccepts]; simp [processCached, hrun, ha]),
                  hcompleted checked, List.Subset.refl runs⟩
            · exact absurd (.unknownRun haccepts hrun) (h _)
          | some init =>
            by_cases hrun : activation.runId ∈ runs
            · exact absurd (.duplicateRun haccepts hrun) (h _)
            · cases hf : findDefinition definitions init.workflowType with
              | error e => exact absurd (.unknownType haccepts hrun hf) (h _)
              | ok value =>
                have hregisters : Registers definitions runs activation answers init :=
                  ⟨haccepts, hrun, hf⟩
                cases hd : decodeInput init.arguments answers.decoded with
                | error e => exact absurd (.undecodable hregisters hd) (h _)
                | raised message => exact absurd (.decoderRaised hregisters hd) (h _)
                | ok value =>
                  cases hs : answers.started with
                  | some message => exact absurd (.startRaised hregisters hd hs) (h _)
                  | none =>
                    have henters : Enters definitions runs activation answers :=
                      .inl ⟨init, hregisters, hd, hs⟩
                    cases ha : answers.activated with
                    | error e => exact absurd (.activationFailed henters ha) (h _)
                    | raised message => exact absurd (.activationRaised henters ha) (h _)
                    | ok checked =>
                      exact ⟨_, _, processOne_of_returns
                        (by rw [unsafe_new haccepts]; simp [processNew, hrun, hf, hd, hs, ha]; rfl),
                        hcompleted checked, hadded⟩

/-! ### Query-only activations -/

theorem queryOnlyIds_isSome : (queryOnlyIds activation).isSome = true ↔
    activation.jobs ≠ [] ∧ ∀ job ∈ activation.jobs, (queryId? job).isSome = true := by
  have hiff : (queryOnlyIds activation).isSome = true ↔ activation.jobs.filterMap queryId? ≠ [] ∧
      (activation.jobs.filterMap queryId?).length = activation.jobs.length := by
    unfold queryOnlyIds
    dsimp only
    split
    · exact iff_of_true rfl ‹_›
    · exact iff_of_false nofun ‹_›
  rw [hiff, List.filterMap_length_eq_length]
  refine and_congr_left fun hall => ?_
  rw [← List.length_pos_iff, ← List.length_pos_iff, List.filterMap_length_eq_length.mpr hall]

/-- The ids of a query-only activation are in the order of its jobs. -/
theorem queryOnlyIds_eq_some {queryIds : List Bytes}
    (hids : activation.jobs.map queryId? = queryIds.map some) (hsome : queryIds ≠ []) :
    queryOnlyIds activation = some queryIds := by
  have hfilter : activation.jobs.filterMap queryId? = queryIds :=
    calc activation.jobs.filterMap queryId?
        = (activation.jobs.map queryId?).filterMap id := by rw [List.filterMap_map]; rfl
      _ = queryIds := by rw [hids, List.filterMap_map]; exact List.filterMap_some
  have hlength : queryIds.length = activation.jobs.length := by
    simpa using (congrArg List.length hids).symm
  simp [queryOnlyIds, hfilter, hsome, hlength]

theorem initialization_of_queryOnly (h : (queryOnlyIds activation).isSome = true) :
    initialization activation = .ok none := by
  have hall := (queryOnlyIds_isSome.mp h).2
  suffices hcollect : ∀ jobs, (∀ job ∈ jobs, (queryId? job).isSome = true) → ∀ index,
      collectInitialization index none jobs = .ok none from hcollect _ hall 0
  intro jobs
  induction jobs with
  | nil => exact fun _ _ => rfl
  | cons job jobs ih =>
    intro hjobs index
    have hjob := hjobs job List.mem_cons_self
    have hrest := ih (fun job hjob => hjobs job (List.mem_cons_of_mem _ hjob)) (index + 1)
    cases job <;> first | exact hrest | cases hjob

/-- A call of workflow code or a codec raises before anything else goes wrong, for an
activation that does not initialize a run. -/
def raises (answers : Answers) : Bool :=
  match answers.translated, answers.observed, answers.activated with
  | .raised _, _, _ => true
  | .ok (), none, .raised _ => true
  | _, _, _ => false

/-- How processing a query-only activation ends: with a typed failure that leaves its
run alone, without a failure, or by raising. -/
theorem unsafe_queryOnly (encode : Completion → Except ErrorView Bytes) (definitions : List Bytes)
    (epoch : Nat) (answers : Answers) (runs : List Bytes)
    (h : (queryOnlyIds activation).isSome = true) :
    (∃ e, (processOneUnsafe encode definitions epoch activation answers).run ⟨runs, []⟩ =
        (.ok (failurePending encode epoch false activation e),
          ⟨runs, [failureCompletion activation e]⟩)) ∨
      (∃ p, (processOneUnsafe encode definitions epoch activation answers).run ⟨runs, []⟩ =
        (.ok p, ⟨runs, []⟩)) ∨
      ∃ message, (processOneUnsafe encode definitions epoch activation answers).run ⟨runs, []⟩ =
        (.error message, ⟨runs, []⟩) ∧ raises answers = true := by
  have hnone : (queryOnlyIds activation).isNone = false := by simpa using h
  cases ht : answers.translated with
  | error e => exact .inl ⟨e, by simp [processOneUnsafe, ht]⟩
  | raised message =>
    exact .inr (.inr ⟨message, by simp [processOneUnsafe, ht], by simp [raises, ht]⟩)
  | ok value =>
    cases ho : answers.observed with
    | some message => exact .inl ⟨_, by simp [processOneUnsafe, ht, ho, notifyActivation]; rfl⟩
    | none =>
      by_cases hc : evicts activation = true ∧ activation.runId ∉ runs
      · exact .inr (.inl ⟨evictionPending encode epoch activation,
          by simp [processOneUnsafe, ht, ho, notifyActivation, hc]⟩)
      · rw [unsafe_cached ⟨ht, ho, hc, initialization_of_queryOnly h⟩]
        by_cases hrun : activation.runId ∈ runs
        · cases ha : answers.activated with
          | error e => exact .inl ⟨e, by simp [processCached, hrun, ha, hnone]⟩
          | raised message =>
            exact .inr (.inr
              ⟨message, by simp [processCached, hrun, ha], by simp [raises, ht, ho, ha]⟩)
          | ok checked =>
            exact .inr (.inl ⟨completedPending epoch activation checked,
              by simp [processCached, hrun, ha]⟩)
        · exact .inl ⟨_, by simp [processCached, hrun]; rfl⟩

/-- A query-only activation that fails leaves its run alone, unless it raises while the
run is cached. -/
theorem processOne_keeps_run {p : Pending} {w : Work} (h : (queryOnlyIds activation).isSome = true)
    (hquiet : activation.runId ∈ runs → raises answers = false)
    (hrun : (processOne encode definitions epoch activation answers).run ⟨runs, []⟩ = (.ok p, w)) :
    w.built = [] ∨ ∃ e, p.result = .rejected e false := by
  have hnone : (queryOnlyIds activation).isNone = false := by simpa using h
  rcases unsafe_queryOnly encode definitions epoch answers runs h with
    ⟨e, hunsafe⟩ | ⟨p', hunsafe⟩ | ⟨message, hunsafe, hraises⟩
  · rw [processOne_of_returns hunsafe] at hrun
    cases hrun
    exact .inr ⟨e, by simp [failurePending, hnone]⟩
  · rw [processOne_of_returns hunsafe] at hrun
    cases hrun
    exact .inl rfl
  · rw [processOne_of_raises hunsafe] at hrun
    cases hrun
    have hgone : activation.runId ∉ runs := by
      intro hmem
      rw [hquiet hmem] at hraises
      cases hraises
    exact .inr ⟨exceptionError (text "$.workflow_execution") message,
      by simp [failurePending, hnone, hgone]⟩

end Processing

end OcamlTemporal.Worker
