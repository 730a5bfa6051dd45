import Mathlib
import OcamlTemporal.Mock.Service

/-!
# OcamlTemporal.Sound.MockService

**The ledger of the mock service.** All that a call does to the runs is to settle a pending run, to
open a run of a workflow that has no pending one, or both in this order. `Inv` and `Later` are shown
for these two moves; what a call adds to the ledgers of requests it adds under fresh keys.
-/

namespace OcamlTemporal.Mock

open OcamlTemporal.Protocol (Bytes text)

variable {R : Type}

/-! ## Moves

A call of the service is a sequence of at most two moves, `settle` and `opened`. Every property of
the runs is shown for a move, lifted to sequences of them by `Did`, and read off each call by its
`_spec` lemma; no later proof unfolds a call. -/

namespace Service

/-- A run of the workflow has been added: it gets the next run identifier, is pending, is the
workflow's current run and is in the history. The ledgers of requests are left open here, as a start
and a reset record different things. -/
structure Opened (s s' : Service R) (workflowId : Bytes) (execution : Execution) : Prop where
  nextRun : s'.nextRun = s.nextRun + 1
  runs : s'.runs = s.runs ++ [execution]
  executions : s'.executions = Function.update s.executions workflowId (some s.runs.length)
  history : s'.history = ((workflowId, execution.runId), s.runs.length) :: s.history
  runId : execution.runId = mockRunId (s.nextRun + 1)
  pending : execution.terminal = .pending

/-- The current run of the workflow, if there is one, has ended. This is what the start policies and
`closeCurrent` make sure of before they open another run. -/
def Closed (s : Service R) (workflowId : Bytes) : Prop :=
  ∀ ref execution, s.executions workflowId = some ref → s.runs[ref]? = some execution →
    execution.terminal ≠ .pending

/-- What can happen to the runs: a pending one is given its result, which is not `pending`, or a run
of a closed workflow is opened. The ledgers of requests may grow in the second case. -/
inductive Move : Service R → Service R → Prop
  | settle {s : Service R} {ref : Nat} {execution : Execution} {terminal : Terminal}
      (h : s.runs[ref]? = some execution) (hpending : execution.terminal = .pending)
      (hterminal : terminal ≠ .pending) : Move s (s.setTerminal ref terminal)
  | opened {s s' : Service R} {workflowId : Bytes} {execution : Execution}
      (hclosed : s.Closed workflowId) (h : Opened s s' workflowId execution) : Move s s'

theorem getElem?_setTerminal (s : Service R) (ref i : Nat) (terminal : Terminal) :
    (s.setTerminal ref terminal).runs[i]? =
      (s.runs[i]?).map fun e => if ref = i then { e with terminal } else e := by
  rw [setTerminal, List.getElem?_modify]
  rfl

theorem length_setTerminal (s : Service R) (ref : Nat) (terminal : Terminal) :
    (s.setTerminal ref terminal).runs.length = s.runs.length := List.length_modify _ _ _

/-- What the tables say about the runs. Runs are numbered by their place, which makes their
identifiers distinct; the history names every run once, under its own identifier; and a pending run
is the current one of its workflow, so that no workflow has two. -/
structure Inv (s : Service R) : Prop where
  counted : s.runs.length = s.nextRun
  ids : ∀ ref e, s.runs[ref]? = some e → e.runId = mockRunId (ref + 1)
  -- every run is in the history once
  refs : s.history.map Prod.snd = (List.range s.runs.length).reverse
  kept : ∀ key ref, (key, ref) ∈ s.history → ∃ e, s.runs[ref]? = some e ∧ e.runId = key.2
  current : ∀ workflowId ref, s.executions workflowId = some ref →
    ∃ runId, ((workflowId, runId), ref) ∈ s.history
  pending : ∀ key ref e, (key, ref) ∈ s.history → s.runs[ref]? = some e → e.terminal = .pending →
    s.executions key.1 = some ref

theorem inv_initial (endpointNamespace : Bytes) : Inv (initial endpointNamespace : Service R) where
  counted := rfl
  ids _ _ h := by cases h
  refs := rfl
  kept _ _ h := by cases h
  current _ _ h := by cases h
  pending _ _ _ h := by cases h

variable {s s' : Service R}

variable {terminal : Terminal} {workflowId runId : Bytes} {execution : Execution} {ref : Nat}
  {found : Nat × Execution} {request : StartRequest R}

theorem Inv.setTerminal (h : Inv s) (ref : Nat) (hterminal : terminal ≠ .pending) :
    Inv (s.setTerminal ref terminal) := by
  have hread : ∀ (i : Nat) (e : Execution), (s.setTerminal ref terminal).runs[i]? = some e →
      ∃ old, s.runs[i]? = some old ∧ e.runId = old.runId ∧
        (e.terminal = .pending → old.terminal = .pending) := by
    intro i e he
    rw [getElem?_setTerminal] at he
    obtain ⟨old, hold, rfl⟩ := Option.map_eq_some_iff.mp he
    refine ⟨old, hold, ?_, ?_⟩
    · split_ifs <;> rfl
    · split_ifs
      · exact fun hp => absurd hp hterminal
      · exact id
  refine ⟨?_, ?_, ?_, ?_, h.current, ?_⟩
  · rw [length_setTerminal]
    exact h.counted
  · intro i e he
    obtain ⟨old, hold, hid, -⟩ := hread i e he
    exact hid.trans (h.ids i old hold)
  · rw [length_setTerminal]
    exact h.refs
  · intro key i hmem
    obtain ⟨old, hold, hid⟩ := h.kept key i hmem
    refine ⟨_, by rw [getElem?_setTerminal, hold]; rfl, ?_⟩
    split_ifs <;> exact hid
  · intro key i e hmem he hpending
    obtain ⟨old, hold, -, hold'⟩ := hread i e he
    exact h.pending key i old hmem hold (hold' hpending)

theorem Inv.opened (h : Inv s) (hclosed : s.Closed workflowId)
    (ho : Opened s s' workflowId execution) : Inv s' := by
  have hlt : ∀ {key ref}, (key, ref) ∈ s.history → ref < s.runs.length := by
    intro key ref hmem
    obtain ⟨e, he, -⟩ := h.kept key ref hmem
    exact (List.getElem?_eq_some_iff.mp he).1
  have hold : ∀ {ref : Nat}, ref < s.runs.length → s'.runs[ref]? = s.runs[ref]? := by
    intro ref href
    rw [ho.runs, List.getElem?_append_left href]
  have hnew : s'.runs[s.runs.length]? = some execution := by
    rw [ho.runs, List.getElem?_concat_length]
  refine ⟨?_, ?_, ?_, ?_, ?_, ?_⟩
  · rw [ho.runs, ho.nextRun, List.length_append, h.counted]
    rfl
  · intro ref e he
    rw [ho.runs, List.getElem?_append] at he
    split_ifs at he with hlt'
    · exact h.ids ref e he
    · obtain ⟨hzero, rfl⟩ := List.getElem?_eq_some_iff.mp he
      rw [List.length_singleton] at hzero
      have href : ref = s.nextRun := by rw [← h.counted]; omega
      rw [List.getElem_singleton, ho.runId, href]
  · rw [ho.runs, ho.history, List.map_cons, h.refs, List.length_append, List.length_singleton,
      List.range_succ, List.reverse_append]
    rfl
  · intro key ref hmem
    rw [ho.history] at hmem
    rcases List.mem_cons.mp hmem with heq | hmem
    · obtain ⟨rfl, rfl⟩ := Prod.mk.inj heq
      exact ⟨execution, hnew, rfl⟩
    · rw [hold (hlt hmem)]
      exact h.kept key ref hmem
  · intro workflowId' ref href
    rw [ho.executions] at href
    rw [ho.history]
    by_cases hw : workflowId' = workflowId
    · subst hw
      rw [Function.update_self] at href
      obtain rfl := Option.some.inj href
      exact ⟨_, List.mem_cons_self⟩
    · rw [Function.update_of_ne hw] at href
      obtain ⟨runId, hmem⟩ := h.current workflowId' ref href
      exact ⟨runId, List.mem_cons_of_mem _ hmem⟩
  · intro key ref e hmem he hpending
    rw [ho.history] at hmem
    rw [ho.executions]
    rcases List.mem_cons.mp hmem with heq | hmem
    · obtain ⟨rfl, rfl⟩ := Prod.mk.inj heq
      exact Function.update_self _ _ _
    · rw [hold (hlt hmem)] at he
      have hcurrent := h.pending key ref e hmem he hpending
      -- A pending run of the workflow would be its current one, which has ended.
      have hne : key.1 ≠ workflowId := by
        intro heq
        exact hclosed ref e (heq ▸ hcurrent) he hpending
      rw [Function.update_of_ne hne]
      exact hcurrent

theorem Inv.move (h : Inv s) (hm : Move s s') : Inv s' := by
  cases hm with
  | settle _ _ hterminal => exact h.setTerminal _ hterminal
  | opened hclosed ho => exact h.opened hclosed ho

/-- What a service keeps of its runs and requests, however many calls follow: a run keeps its place
and its identifier, one that has ended keeps its result too, and no request leaves the ledgers. -/
structure Later (s s' : Service R) : Prop where
  runs : ∀ (ref : Nat) (e : Execution), s.runs[ref]? = some e → ∃ e', s'.runs[ref]? = some e' ∧
    e'.runId = e.runId ∧
    (e.terminal ≠ .pending → e' = e)
  starts : ∀ key p, s.startRequests key = some p → s'.startRequests key = some p
  resets : ∀ key p, s.resetRequests key = some p → s'.resetRequests key = some p

theorem Later.refl (s : Service R) : Later s s :=
  ⟨fun _ e h => ⟨e, h, rfl, fun _ => rfl⟩, fun _ _ h => h, fun _ _ h => h⟩

theorem Later.trans {s'' : Service R} (h : Later s s') (h' : Later s' s'') : Later s s'' where
  runs ref e he := by
    obtain ⟨e', he', hid, hkeep⟩ := h.runs ref e he
    obtain ⟨e'', he'', hid', hkeep'⟩ := h'.runs ref e' he'
    refine ⟨e'', he'', hid'.trans hid, fun hp => ?_⟩
    have heq := hkeep hp
    subst heq
    exact hkeep' hp
  starts key p hp := h'.starts key p (h.starts key p hp)
  resets key p hp := h'.resets key p (h.resets key p hp)

theorem later_setTerminal (terminal : Terminal) (h : s.runs[ref]? = some execution)
    (hpending : execution.terminal = .pending) : Later s (s.setTerminal ref terminal) := by
  refine ⟨fun i e he => ?_, fun _ _ h => h, fun _ _ h => h⟩
  refine ⟨_, by rw [getElem?_setTerminal, he]; rfl, ?_, ?_⟩
  · split_ifs <;> rfl
  · intro hp
    split_ifs with heq
    · subst heq
      rw [h] at he
      obtain rfl := Option.some.inj he
      exact absurd hpending hp
    · rfl

theorem later_opened (ho : Opened s s' workflowId execution)
    (hstarts : ∀ key p, s.startRequests key = some p → s'.startRequests key = some p)
    (hresets : ∀ key p, s.resetRequests key = some p → s'.resetRequests key = some p) :
    Later s s' := by
  refine ⟨fun ref e he => ⟨e, ?_, rfl, fun _ => rfl⟩, hstarts, hresets⟩
  rw [ho.runs, List.getElem?_append_left (List.getElem?_eq_some_iff.mp he).1]
  exact he

/-- Some moves, with nothing of the ledgers lost. `Inv.did` and `Later.trans` carry the two parts
along a run of calls. -/
structure Did (s s' : Service R) : Prop where
  moves : Relation.ReflTransGen Move s s'
  later : Later s s'

theorem Did.refl (s : Service R) : Did s s := ⟨.refl, .refl s⟩

theorem Did.trans {s'' : Service R} (h : Did s s') (h' : Did s' s'') : Did s s'' :=
  ⟨h.moves.trans h'.moves, h.later.trans h'.later⟩

theorem Inv.did (h : Inv s) (hd : Did s s') : Inv s' := by
  obtain ⟨hmoves, -⟩ := hd
  induction hmoves with
  | refl => exact h
  | tail _ hm ih => exact ih.move hm

/-- A pending run is settled and any other is left alone, as in every call of the source that ends a
run. -/
theorem did_settle (h : s.runs[ref]? = some execution) (hterminal : terminal ≠ .pending) :
    Did s (if execution.terminal = .pending then s.setTerminal ref terminal else s) := by
  split_ifs with hpending
  · exact ⟨.single (.settle h hpending hterminal), later_setTerminal terminal h hpending⟩
  · exact .refl s

theorem read_eq_some (h : s.read ref = some found) :
    found.1 = ref ∧ s.runs[ref]? = some found.2 := by
  obtain ⟨e, he, rfl⟩ := Option.map_eq_some_iff.mp h
  exact ⟨rfl, he⟩

theorem current_eq_some (h : s.current workflowId = some found) :
    s.executions workflowId = some found.1 ∧ s.runs[found.1]? = some found.2 := by
  obtain ⟨ref, href, hread⟩ := Option.bind_eq_some_iff.mp h
  obtain ⟨rfl, he⟩ := read_eq_some hread
  exact ⟨href, he⟩

/-- A workflow whose current run is not pending is closed. -/
theorem closed_of_current
    (h : ∀ ref e, s.current workflowId = some (ref, e) → e.terminal ≠ .pending) :
    s.Closed workflowId := by
  intro ref e href he
  refine h ref e ?_
  rw [current, href, Option.bind_some, read, he]
  rfl

theorem closed_setTerminal (href : s.executions workflowId = some ref)
    (hterminal : terminal ≠ .pending) : (s.setTerminal ref terminal).Closed workflowId := by
  intro ref' e href' he
  obtain rfl : ref = ref' := Option.some.inj (href.symm.trans href')
  rw [getElem?_setTerminal] at he
  obtain ⟨old, -, rfl⟩ := Option.map_eq_some_iff.mp he
  rw [if_pos rfl]
  exact hterminal

theorem closeCurrent_spec (s : Service R) (workflowId : Bytes) :
    Did s (s.closeCurrent workflowId) ∧ (s.closeCurrent workflowId).Closed workflowId := by
  unfold closeCurrent
  cases hcurrent : s.current workflowId with
  | none =>
    exact ⟨.refl s, closed_of_current fun ref e h => (by rw [hcurrent] at h; cases h)⟩
  | some found =>
    obtain ⟨ref, e⟩ := found
    obtain ⟨href, he⟩ := current_eq_some hcurrent
    have hterminal : Terminal.terminated ≠ .pending := nofun
    refine ⟨did_settle he hterminal, ?_⟩
    simp only
    split_ifs with hpending
    · exact closed_setTerminal href hterminal
    · refine closed_of_current fun ref' e' h => ?_
      rw [hcurrent] at h
      obtain ⟨-, rfl⟩ := Prod.mk.inj (Option.some.inj h)
      exact hpending

/-- A start that opens a run reports it as started and, if it carries a request identifier, records
the request with its response; it is the only part of a start that writes to this ledger. -/
theorem mockStartNewRun_spec (s : Service R) (request : StartRequest R) :
    ∃ e, Opened s (s.mockStartNewRun request).1 request.workflowId e ∧
      (s.mockStartNewRun request).2 = .ok ⟨request.workflowId, e.runId, true⟩ ∧
      (s.mockStartNewRun request).1.resetRequests = s.resetRequests ∧
      (s.mockStartNewRun request).1.startRequests =
        match request.requestId with
        | none => s.startRequests
        | some id => Function.update s.startRequests (request.workflowId, id)
            (some ⟨request, ⟨request.workflowId, e.runId, true⟩⟩) := by
  refine ⟨⟨mockRunId (s.nextRun + 1), request.workflowName, request.taskQueue,
    mockWorkflowInput request.input, .pending⟩, ?_⟩
  unfold mockStartNewRun
  cases request.requestId with
  | none => exact ⟨⟨rfl, rfl, rfl, rfl, rfl, rfl⟩, rfl, rfl, rfl⟩
  | some id => exact ⟨⟨rfl, rfl, rfl, rfl, rfl, rfl⟩, rfl, rfl, rfl⟩

theorem did_mockStartNewRun (hclosed : s.Closed request.workflowId)
    (hfresh : (request.requestId.bind fun id => s.startRequests (request.workflowId, id)) = none) :
    Did s (s.mockStartNewRun request).1 := by
  obtain ⟨e, ho, -, hresets, hstarts⟩ := mockStartNewRun_spec s request
  refine ⟨.single (.opened hclosed ho), later_opened ho ?_ ?_⟩
  · intro key p hp
    rw [hstarts]
    cases hid : request.requestId with
    | none => exact hp
    | some id =>
      rw [hid, Option.bind_some] at hfresh
      have hne : key ≠ (request.workflowId, id) := by
        rintro rfl
        rw [hfresh] at hp
        cases hp
      exact (Function.update_of_ne hne _ _).trans hp
  · intro key p hp
    rw [hresets]
    exact hp

/-- A start that reports a new run is in the ledger under its request identifier. -/
def Recorded (request : StartRequest R) (out : Service R × Except Fault StartResponse) : Prop :=
  ∀ id response, request.requestId = some id → out.2 = .ok response → response.started = true →
    out.1.startRequests (request.workflowId, id) = some ⟨request, response⟩

theorem recorded_mockStartNewRun (s : Service R) (request : StartRequest R) :
    Recorded request (s.mockStartNewRun request) := by
  intro id response hid hresponse _
  obtain ⟨e, -, hok, -, hstarts⟩ := mockStartNewRun_spec s request
  rw [hok] at hresponse
  obtain rfl := Except.ok.inj hresponse
  rw [hstarts, hid]
  exact Function.update_self _ _ _

theorem recorded_error {fault : Fault} : Recorded request (s, .error fault) := nofun

theorem mockStartFresh_spec
    (hfresh : (request.requestId.bind fun id => s.startRequests (request.workflowId, id)) = none) :
    Did s (s.mockStartFresh request).1 ∧ Recorded request (s.mockStartFresh request) := by
  unfold mockStartFresh
  cases hcurrent : s.current request.workflowId with
  | none =>
    exact ⟨did_mockStartNewRun
      (closed_of_current fun ref e h => (by rw [hcurrent] at h; cases h)) hfresh,
      recorded_mockStartNewRun s request⟩
  | some found =>
    obtain ⟨ref, existing⟩ := found
    obtain ⟨href, he⟩ := current_eq_some hcurrent
    simp only
    split_ifs with hpending
    · cases request.idConflictPolicy with
      | fail => exact ⟨.refl s, recorded_error⟩
      | useExisting =>
        refine ⟨.refl s, fun _ _ _ hok hstarted => ?_⟩
        obtain rfl := Except.ok.inj hok
        cases hstarted
      | terminateExisting =>
        have hterminal : Terminal.terminated ≠ .pending := nofun
        have hsettle := did_settle he hterminal
        rw [if_pos hpending] at hsettle
        exact ⟨hsettle.trans (did_mockStartNewRun (closed_setTerminal href hterminal) hfresh),
          recorded_mockStartNewRun _ request⟩
    · have hclosed : s.Closed request.workflowId := closed_of_current fun ref' e' h => by
        rw [hcurrent] at h
        obtain ⟨-, rfl⟩ := Prod.mk.inj (Option.some.inj h)
        exact hpending
      have hnew := And.intro (did_mockStartNewRun hclosed hfresh)
        (recorded_mockStartNewRun s request)
      split
      · exact ⟨.refl s, recorded_error⟩
      · exact ⟨.refl s, recorded_error⟩
      · exact ⟨.refl s, recorded_error⟩
      · exact hnew

/-- A start opens a run only where its conflict and reuse policies have found or made the workflow
closed, and a request that is in the ledger never gets that far. -/
theorem mockClientStart_spec [DecidableEq R] (closed : Bool) (request : StartRequest R)
    (s : Service R) :
    Did s (s.mockClientStart closed request).1 ∧
      Recorded request (s.mockClientStart closed request) := by
  unfold mockClientStart
  split_ifs
  · exact ⟨.refl s, recorded_error⟩
  · cases hprevious : request.requestId.bind fun id => s.startRequests (request.workflowId, id) with
    | none => exact mockStartFresh_spec hprevious
    | some previous =>
      simp only
      split_ifs with heq
      · refine ⟨.refl s, fun id response hid hok _ => ?_⟩
        obtain rfl := Except.ok.inj hok
        rw [hid, Option.bind_some] at hprevious
        rw [hprevious, ← heq]
      · exact ⟨.refl s, recorded_error⟩

/-- A repeated start finds its own request in the ledger, equal to the one it carries, and is
answered from there. -/
theorem mockClientStart_repeat [DecidableEq R] {id : Bytes} {response : StartResponse}
    (hid : request.requestId = some id)
    (h : s.startRequests (request.workflowId, id) = some ⟨request, response⟩) :
    s.mockClientStart false request = (s, .ok response) := by
  simp only [mockClientStart, hid, Option.bind_some, h, if_true, Bool.false_eq_true, if_false]

/-- A run that is found for a call is the current one of the workflow, selected by the identifier,
or one that the history has under this identifier. -/
theorem mockFindRun_eq_some (h : s.mockFindRun workflowId runId = some found) :
    s.runs[found.1]? = some found.2 ∧
      (mockSelectsRun runId found.2 = true ∨ ((workflowId, runId), found.1) ∈ s.history) := by
  unfold mockFindRun at h
  cases hfilter : (s.current workflowId).filter fun found => mockSelectsRun runId found.2 with
  | some found' =>
    rw [hfilter] at h
    obtain rfl := Option.some.inj h
    obtain ⟨hcurrent, hselects⟩ := Option.filter_eq_some_iff.mp hfilter
    exact ⟨(current_eq_some hcurrent).2, .inl hselects⟩
  | none =>
    rw [hfilter] at h
    simp only at h
    split_ifs at h
    obtain ⟨ref, hlookup, hread⟩ := Option.bind_eq_some_iff.mp h
    obtain ⟨rfl, he⟩ := read_eq_some hread
    obtain ⟨l₁, l₂, hsplit, -⟩ := List.lookup_eq_some_iff.mp hlookup
    exact ⟨he, .inr (by rw [hsplit]; exact List.mem_append_right _ List.mem_cons_self)⟩

theorem did_mockClientWait (closed : Bool) (workflowId runId : Bytes) (s : Service R) :
    Did s (s.mockClientWait closed workflowId runId).1 := by
  unfold mockClientWait
  split_ifs
  · exact .refl s
  · cases hfind : s.mockFindRun workflowId runId with
    | none => exact .refl s
    | some found => exact did_settle (mockFindRun_eq_some hfind).1 fun h => (by cases h)

theorem did_mockClose (hterminal : terminal ≠ .pending) (closed : Bool) (workflowId runId : Bytes)
    (s : Service R) : Did s (s.mockClose terminal closed workflowId runId).1 := by
  unfold mockClose
  split_ifs
  · exact .refl s
  · cases hcurrent : s.current workflowId with
    | none => exact .refl s
    | some found =>
      simp only
      split_ifs
      · exact .refl s
      · have hsettle := did_settle (current_eq_some hcurrent).2 hterminal
        rwa [if_pos ‹_›] at hsettle
      · exact .refl s

/-- A reset terminates the current run before it opens the next one, and records itself under its
request identifier, which is not optional. -/
theorem mockResetRun_spec (s : Service R) (request : ResetRequest) (execution : Execution) :
    ∃ e, Opened (s.closeCurrent request.workflowId) (s.mockResetRun request execution).1
        request.workflowId e ∧
      (s.mockResetRun request execution).2 = .ok ⟨request.workflowId, e.runId⟩ ∧
      (s.mockResetRun request execution).1.startRequests =
        (s.closeCurrent request.workflowId).startRequests ∧
      (s.mockResetRun request execution).1.resetRequests =
        Function.update (s.closeCurrent request.workflowId).resetRequests
          (request.workflowId, request.requestId) (some ⟨request, ⟨request.workflowId, e.runId⟩⟩) :=
  ⟨_, ⟨rfl, rfl, rfl, rfl, rfl, rfl⟩, rfl, rfl, rfl⟩

theorem closeCurrent_resetRequests (s : Service R) (workflowId : Bytes) :
    (s.closeCurrent workflowId).resetRequests = s.resetRequests := by
  unfold closeCurrent
  split
  · split_ifs <;> rfl
  · rfl

theorem did_mockResetRun {request : ResetRequest} (execution : Execution)
    (hfresh : s.resetRequests (request.workflowId, request.requestId) = none) :
    Did s (s.mockResetRun request execution).1 := by
  obtain ⟨hclose, hclosed⟩ := closeCurrent_spec s request.workflowId
  obtain ⟨e, ho, -, hstarts, hresets⟩ := mockResetRun_spec s request execution
  refine hclose.trans ⟨.single (.opened hclosed ho), later_opened ho ?_ ?_⟩
  · intro key p hp
    rw [hstarts]
    exact hp
  · intro key p hp
    have hne : key ≠ (request.workflowId, request.requestId) := by
      rintro rfl
      rw [closeCurrent_resetRequests, hfresh] at hp
      cases hp
    rw [hresets, Function.update_of_ne hne]
    exact hp

/-- What a reset does, and that an accepted one is in the ledger. -/
theorem mockClientReset_spec (closed : Bool) (request : ResetRequest) (s : Service R) :
    Did s (s.mockClientReset closed request).1 ∧
      ∀ response, (s.mockClientReset closed request).2 = .ok response →
        1 < request.workflowTaskFinishEventId ∧
        (s.mockClientReset closed request).1.resetRequests (request.workflowId, request.requestId) =
          some ⟨request, response⟩ := by
  unfold mockClientReset
  generalize (if (s.executions request.workflowId).isSome then Fault.runMismatch
    else Fault.notStarted) = fault
  split_ifs with hclosed hevent
  · exact ⟨.refl s, nofun⟩
  · exact ⟨.refl s, nofun⟩
  · cases hprevious : s.resetRequests (request.workflowId, request.requestId) with
    | some previous =>
      simp only
      split_ifs with heq
      · refine ⟨.refl s, fun response hok => ⟨Int.not_le.mp hevent, ?_⟩⟩
        obtain rfl := Except.ok.inj hok
        rw [hprevious, ← heq]
      · exact ⟨.refl s, nofun⟩
    | none =>
      cases s.mockFindRun request.workflowId request.runId with
      | none => exact ⟨.refl s, nofun⟩
      | some found =>
        refine ⟨did_mockResetRun found.2 hprevious, fun response hok => ⟨Int.not_le.mp hevent, ?_⟩⟩
        obtain ⟨e, -, hok', -, hresets⟩ := mockResetRun_spec s request found.2
        have hresponse := hok'.symm.trans hok
        obtain rfl := Except.ok.inj hresponse
        simp only [hresets]
        exact Function.update_self _ _ _

theorem mockClientReset_repeat {request : ResetRequest} {response : ResetResponse}
    (hevent : 1 < request.workflowTaskFinishEventId)
    (h : s.resetRequests (request.workflowId, request.requestId) = some ⟨request, response⟩) :
    s.mockClientReset false request = (s, .ok response) := by
  simp only [mockClientReset, h, if_neg (Int.not_le.mpr hevent), if_true,
    Bool.false_eq_true, if_false]

theorem did_call [DecidableEq R] (s : Service R) (closed : Bool) (c : Call R) :
    Did s (s.call closed c) := by
  cases c with
  | start request => exact (mockClientStart_spec closed request s).1
  | wait workflowId runId => exact did_mockClientWait closed workflowId runId s
  | cancel workflowId runId => exact did_mockClose (fun h => (by cases h)) closed workflowId runId s
  | terminate workflowId runId =>
    exact did_mockClose (fun h => (by cases h)) closed workflowId runId s
  | reset request => exact (mockClientReset_spec closed request s).1

/-! ## What a call that names a run changes

A call with an empty run identifier is about the current run, whichever that is. One that names a
run must not touch another, although it looks for it among the current runs first. -/

/-- Nothing but the run with this identifier is changed, and that one only in its place: no run is
added, and the tables of current runs and of the history stay. -/
structure OnlyRun (runId : Bytes) (s s' : Service R) : Prop where
  others : ∀ (ref : Nat) (e : Execution), s.runs[ref]? = some e → e.runId ≠ runId →
    s'.runs[ref]? = some e
  length : s'.runs.length = s.runs.length
  executions : s'.executions = s.executions
  history : s'.history = s.history

theorem OnlyRun.refl (runId : Bytes) (s : Service R) : OnlyRun runId s s :=
  ⟨fun _ _ h _ => h, rfl, rfl, rfl⟩

theorem onlyRun_settle (terminal : Terminal) (h : s.runs[ref]? = some execution)
    (hid : execution.runId = runId) :
    OnlyRun runId s (if execution.terminal = .pending then s.setTerminal ref terminal else s) := by
  split_ifs
  · refine ⟨fun i e he hne => ?_, length_setTerminal s ref terminal, rfl, rfl⟩
    rw [getElem?_setTerminal, he, Option.map_some, if_neg]
    rintro rfl
    rw [h] at he
    obtain rfl := Option.some.inj he
    exact hne hid
  · exact .refl runId s

theorem selects_iff (hne : runId ≠ []) :
    mockSelectsRun runId execution = true ↔ execution.runId = runId := by
  simp only [mockSelectsRun, Bool.or_eq_true, decide_eq_true_eq, hne, false_or]

theorem onlyRun_wait (h : Inv s) (closed : Bool) (workflowId : Bytes) (hne : runId ≠ []) :
    OnlyRun runId s (s.mockClientWait closed workflowId runId).1 := by
  unfold mockClientWait
  split_ifs
  · exact .refl runId s
  · cases hfind : s.mockFindRun workflowId runId with
    | none => exact .refl runId s
    | some found =>
      obtain ⟨he, hselected⟩ := mockFindRun_eq_some hfind
      refine onlyRun_settle .completed he ?_
      rcases hselected with hselects | hmem
      · exact (selects_iff hne).mp hselects
      · obtain ⟨e, he', hid⟩ := h.kept _ _ hmem
        rw [he] at he'
        exact Option.some.inj he' ▸ hid

theorem onlyRun_close (terminal : Terminal) (closed : Bool) (workflowId : Bytes)
    (hne : runId ≠ []) :
    OnlyRun runId s (s.mockClose terminal closed workflowId runId).1 := by
  unfold mockClose
  split_ifs
  · exact .refl runId s
  · cases hcurrent : s.current workflowId with
    | none => exact .refl runId s
    | some found =>
      cases hselects : mockSelectsRun runId found.2 with
      | false =>
        simp only [hselects]
        exact .refl runId s
      | true =>
        simp only [hselects]
        exact onlyRun_settle terminal (current_eq_some hcurrent).2 ((selects_iff hne).mp hselects)

/-- What a reset does that is accepted for the first time. The current run of the workflow is
terminated if it is pending, whichever run the request names, and no other run changes. One run is
added, the one that the response names; it is pending and the workflow's current run. -/
structure ResetOnly (request : ResetRequest) (response : ResetResponse) (s s' : Service R) :
    Prop where
  others : ∀ (ref : Nat) (e : Execution), s.runs[ref]? = some e →
    s'.runs[ref]? = some (if s.executions request.workflowId = some ref ∧ e.terminal = .pending then
      { e with terminal := .terminated } else e)
  length : s'.runs.length = s.runs.length + 1
  added : ∃ e, s'.runs[s.runs.length]? = some e ∧ e.runId = response.runId ∧ e.terminal = .pending
  workflowId : response.workflowId = request.workflowId
  executions : s'.executions =
    Function.update s.executions request.workflowId (some s.runs.length)
  history : s'.history = ((request.workflowId, response.runId), s.runs.length) :: s.history

theorem getElem?_closeCurrent {e : Execution} (he : s.runs[ref]? = some e) :
    (s.closeCurrent workflowId).runs[ref]? =
      some (if s.executions workflowId = some ref ∧ e.terminal = .pending then
        { e with terminal := .terminated } else e) := by
  unfold closeCurrent
  cases hcurrent : s.current workflowId with
  | none =>
    have hne : ¬ s.executions workflowId = some ref := by
      intro href
      rw [current, href, Option.bind_some, read, he] at hcurrent
      cases hcurrent
    rw [if_neg (fun h => hne h.1)]
    exact he
  | some found =>
    obtain ⟨ref', e'⟩ := found
    obtain ⟨href, he'⟩ := current_eq_some hcurrent
    simp only
    by_cases hsame : ref' = ref
    · subst hsame
      rw [he] at he'
      obtain rfl := Option.some.inj he'
      split_ifs with hp hboth hboth
      · rw [getElem?_setTerminal, he, Option.map_some, if_pos rfl]
      · exact absurd ⟨href, hp⟩ hboth
      · exact absurd hboth.2 hp
      · exact he
    · have hne : ¬ (s.executions workflowId = some ref ∧ e.terminal = .pending) := by
        rintro ⟨hother, -⟩
        exact hsame (Option.some.inj (href.symm.trans hother))
      rw [if_neg hne]
      split_ifs
      · rw [getElem?_setTerminal, he, Option.map_some, if_neg hsame]
      · exact he

theorem closeCurrent_frame (s : Service R) (workflowId : Bytes) :
    (s.closeCurrent workflowId).history = s.history ∧
      (s.closeCurrent workflowId).executions = s.executions ∧
      (s.closeCurrent workflowId).runs.length = s.runs.length := by
  unfold closeCurrent
  split
  · split_ifs
    · exact ⟨rfl, rfl, length_setTerminal _ _ _⟩
    · exact ⟨rfl, rfl, rfl⟩
  · exact ⟨rfl, rfl, rfl⟩

theorem mockResetRun_only (s : Service R) (request : ResetRequest) (execution : Execution)
    {response : ResetResponse} (hok : (s.mockResetRun request execution).2 = .ok response) :
    ResetOnly request response s (s.mockResetRun request execution).1 := by
  obtain ⟨e, ho, hresponse, -⟩ := mockResetRun_spec s request execution
  obtain ⟨hhistory, hexecutions, hlength⟩ := closeCurrent_frame s request.workflowId
  obtain rfl := Except.ok.inj (hresponse.symm.trans hok)
  refine ⟨fun ref e' he => ?_, ?_, ⟨e, ?_, rfl, ho.pending⟩, rfl, ?_, ?_⟩
  · have hlt : ref < (s.closeCurrent request.workflowId).runs.length := by
      rw [hlength]
      exact (List.getElem?_eq_some_iff.mp he).1
    rw [ho.runs, List.getElem?_append_left hlt]
    exact getElem?_closeCurrent he
  · rw [ho.runs, List.length_append, List.length_singleton, hlength]
  · rw [ho.runs, ← hlength, List.getElem?_append_right (Nat.le_refl _), Nat.sub_self]
    rfl
  · rw [ho.executions, hexecutions, hlength]
  · rw [ho.history, hhistory, hlength]

/-- A reset whose request is in the ledger, or that is rejected, changes nothing. -/
theorem reset_changes (closed : Bool) (request : ResetRequest) (s : Service R) :
    (∀ response, (s.mockClientReset closed request).2 = .ok response →
      s.resetRequests (request.workflowId, request.requestId) = none →
      ResetOnly request response s (s.mockClientReset closed request).1) ∧
    ((∃ fault, (s.mockClientReset closed request).2 = .error fault) ∨
      s.resetRequests (request.workflowId, request.requestId) ≠ none →
      (s.mockClientReset closed request).1 = s) := by
  unfold mockClientReset
  generalize (if (s.executions request.workflowId).isSome then Fault.runMismatch
    else Fault.notStarted) = fault
  split_ifs
  · exact ⟨nofun, fun _ => rfl⟩
  · exact ⟨nofun, fun _ => rfl⟩
  · cases s.resetRequests (request.workflowId, request.requestId) with
    | some previous =>
      refine ⟨nofun, fun _ => ?_⟩
      simp only
      split_ifs <;> rfl
    | none =>
      cases s.mockFindRun request.workflowId request.runId with
      | none => exact ⟨nofun, fun _ => rfl⟩
      | some found =>
        refine ⟨fun response hok _ => mockResetRun_only s request found.2 hok, fun h => ?_⟩
        obtain ⟨e, -, hok, -⟩ := mockResetRun_spec s request found.2
        rcases h with ⟨fault, hfault⟩ | hne
        · cases hok.symm.trans hfault
        · exact absurd rfl hne

end Service

/-! ## Runs of the service

Any clients call in any order, closed ones too. `reachable_inv` and `later_run` are the two
inductions; the theorem puts together what they say about a state and what `Recorded` and the ledger
say about a request that comes again. -/

open Service

theorem mockRunId_injective : Function.Injective mockRunId := by
  intro m n h
  exact Lib.decimal_injective (List.append_cancel_left h)

namespace Service.Inv

variable {s : Service R}

theorem nodup_runIds (h : Inv s) : (s.runs.map Execution.runId).Nodup := by
  have hids : s.runs.map Execution.runId =
      (List.range s.runs.length).map fun i => mockRunId (i + 1) := by
    refine List.ext_getElem? fun i => ?_
    rw [List.getElem?_map, List.getElem?_map]
    by_cases hi : i < s.runs.length
    · rw [List.getElem?_range hi, List.getElem?_eq_getElem hi, Option.map_some, Option.map_some,
        h.ids i _ (List.getElem?_eq_getElem hi)]
    · rw [List.getElem?_eq_none (Nat.le_of_not_lt hi),
        List.getElem?_eq_none (by rw [List.length_range]; exact Nat.le_of_not_lt hi)]
      rfl
  rw [hids]
  exact List.nodup_range.map fun i j hij => Nat.succ.inj (mockRunId_injective hij)

theorem mem_history (h : Inv s) {ref : Nat} (href : ref < s.runs.length) :
    ∃ key, (key, ref) ∈ s.history := by
  have hmem : ref ∈ s.history.map Prod.snd := by
    rw [h.refs, List.mem_reverse, List.mem_range]
    exact href
  obtain ⟨⟨key, _⟩, hentry, rfl⟩ := List.mem_map.mp hmem
  exact ⟨key, hentry⟩

end Service.Inv

section

variable [DecidableEq R] {s s' : Service R}

theorem reachable_inv (hs : (system R).Reachable s) : Inv s := by
  refine hs.invariant (fun s hstart => ?_) (fun l s s' _ h hstep => ?_)
  · obtain ⟨endpointNamespace, rfl⟩ := hstart
    exact inv_initial endpointNamespace
  · obtain rfl := Option.some.inj hstep
    exact h.did (did_call s l.1 l.2)

theorem later_run (h : Relation.ReflTransGen (system R).Steps s s') : Later s s' := by
  induction h with
  | refl => exact .refl s
  | tail _ hstep ih =>
    obtain ⟨l, hl⟩ := hstep
    obtain rfl := Option.some.inj hl
    exact ih.trans (did_call _ l.1 l.2).later

/-- What holds in every state of the service, whatever calls led to it: run identifiers are not used
twice; every run is in the history, and of the runs of a workflow at most one is pending; a result
that is recorded stays; a start that reported a new run, and an accepted reset, may be repeated at
any time by any open client and is answered as it was, with no change; a wait, a cancellation or a
termination that names a run changes no other. A reset that is answered `Ok` and whose request is
new terminates the workflow's current run if that is pending and adds the one run that its response
names; a reset that is rejected, or whose request is in the ledger, changes nothing. -/
theorem mock_service_ok (hs : (system R).Reachable s) :
    (s.runs.map Execution.runId).Nodup ∧
      (∀ ref < s.runs.length, ∃ key, (key, ref) ∈ s.history) ∧
      (∀ key₁ key₂ ref₁ ref₂ e₁ e₂, (key₁, ref₁) ∈ s.history → (key₂, ref₂) ∈ s.history →
        key₁.1 = key₂.1 → s.runs[ref₁]? = some e₁ → s.runs[ref₂]? = some e₂ →
        e₁.terminal = .pending → e₂.terminal = .pending → ref₁ = ref₂) ∧
      (∀ s', Relation.ReflTransGen (system R).Steps s s' →
        ∀ (ref : Nat) (e : Execution), s.runs[ref]? = some e → ∃ e', s'.runs[ref]? = some e' ∧
          e'.runId = e.runId ∧
          (e.terminal ≠ .pending → e'.terminal = e.terminal)) ∧
      (∀ closed request id response, request.requestId = some id →
        (s.mockClientStart closed request).2 = .ok response → response.started = true →
        ∀ s', Relation.ReflTransGen (system R).Steps (s.mockClientStart closed request).1 s' →
          s'.mockClientStart false request = (s', .ok response)) ∧
      (∀ closed request response, (s.mockClientReset closed request).2 = .ok response →
        ∀ s', Relation.ReflTransGen (system R).Steps (s.mockClientReset closed request).1 s' →
          s'.mockClientReset false request = (s', .ok response)) ∧
      (∀ closed workflowId runId, runId ≠ [] →
        OnlyRun runId s (s.call closed (.wait workflowId runId)) ∧
          OnlyRun runId s (s.call closed (.cancel workflowId runId)) ∧
          OnlyRun runId s (s.call closed (.terminate workflowId runId))) ∧
      ∀ closed request,
        (∀ response, (s.mockClientReset closed request).2 = .ok response →
          s.resetRequests (request.workflowId, request.requestId) = none →
          ResetOnly request response s (s.call closed (.reset request))) ∧
        ((∃ fault, (s.mockClientReset closed request).2 = .error fault) ∨
          s.resetRequests (request.workflowId, request.requestId) ≠ none →
          s.call closed (.reset request) = s) := by
  have h := reachable_inv hs
  refine ⟨h.nodup_runIds, fun ref href => h.mem_history href, ?_, ?_, ?_, ?_, ?_, ?_⟩
  · intro key₁ key₂ ref₁ ref₂ e₁ e₂ hmem₁ hmem₂ hkey he₁ he₂ hp₁ hp₂
    have hcurrent₁ := h.pending key₁ ref₁ e₁ hmem₁ he₁ hp₁
    have hcurrent₂ := h.pending key₂ ref₂ e₂ hmem₂ he₂ hp₂
    rw [hkey, hcurrent₂] at hcurrent₁
    exact (Option.some.inj hcurrent₁).symm
  · intro s' hrun ref e he
    obtain ⟨e', he', hid, hkeep⟩ := (later_run hrun).runs ref e he
    exact ⟨e', he', hid, fun hp => by rw [hkeep hp]⟩
  · intro closed request id response hid hok hstarted s' hrun
    have hrecorded := (mockClientStart_spec closed request s).2 id response hid hok hstarted
    exact mockClientStart_repeat hid ((later_run hrun).starts _ _ hrecorded)
  · intro closed request response hok s' hrun
    obtain ⟨hevent, hrecorded⟩ := (mockClientReset_spec closed request s).2 response hok
    exact mockClientReset_repeat hevent ((later_run hrun).resets _ _ hrecorded)
  · intro closed workflowId runId hne
    exact ⟨onlyRun_wait h closed workflowId hne, onlyRun_close .cancelled closed workflowId hne,
      onlyRun_close .terminated closed workflowId hne⟩
  · intro closed request
    exact reset_changes closed request s

end

/-- A start of the workflow `w` with a request identifier. -/
def startOf (requestId : Option Bytes) (policy : ConflictPolicy) : StartRequest Unit where
  requestId := requestId
  workflowName := text "type"
  workflowId := text "w"
  taskQueue := text "queue"
  input := []
  memo := []
  searchAttributes := []
  idConflictPolicy := policy
  idReusePolicy := .allowDuplicate
  executionTimeoutMs := none
  runTimeoutMs := none
  taskTimeoutMs := none
  retryPolicy := none

/-- The state after calls of open clients. -/
def after (calls : List (Call Unit)) : Service Unit :=
  calls.foldl (fun s c => s.call false c) (.initial (text "default"))

theorem reachable_after (calls : List (Call Unit)) : (system Unit).Reachable (after calls) := by
  induction calls using List.reverseRecOn with
  | nil => exact .start ⟨_, rfl⟩
  | append_singleton calls c ih =>
    have hlast : after (calls ++ [c]) = (after calls).call false c := by
      rw [after, List.foldl_append]
      rfl
    exact .step (false, c) ih (congrArg some hlast.symm)

/-- A start that is repeated after its run was cancelled and replaced, and a reset that opens the
second run of a workflow. -/
theorem mock_service_ok_repeatedStart :
    (let request := startOf (some (text "r")) .fail
      let s := after [.start request, .cancel (text "w") [], .start (startOf none .fail)]
      s.mockClientStart false request = (s, .ok ⟨text "w", mockRunId 1, true⟩)) ∧
    (let request : ResetRequest := ⟨text "w", [], text "r", [], 2⟩
      let s := after [.start (startOf none .fail)]
      ResetOnly request ⟨text "w", mockRunId 2⟩ s (s.call false (.reset request))) := by
  constructor
  · have hstart := mock_service_ok (reachable_after [])
    refine hstart.2.2.2.2.1 false _ (text "r") _ rfl rfl rfl _ ?_
    refine .tail (.single ⟨(false, .cancel (text "w") []), rfl⟩) ?_
    exact ⟨(false, .start (startOf none .fail)), rfl⟩
  · have hreset := mock_service_ok (reachable_after [.start (startOf none .fail)])
    exact (hreset.2.2.2.2.2.2.2 false _).1 _ rfl rfl

/-- Two calls that are not as narrow as they look. A start that joins the pending run is not
recorded: repeated after the run has ended, it opens another one. And a reset that names a closed
run terminates the pending run that has replaced it. -/
theorem join_and_reset_reach_further :
    (let request := startOf (some (text "r")) .useExisting
      let s := after [.start (startOf none .fail)]
      let joined := s.mockClientStart false request
      let later := joined.1.call false (.wait (text "w") [])
      joined.2 = .ok ⟨text "w", mockRunId 1, false⟩ ∧
        (later.mockClientStart false request).2 = .ok ⟨text "w", mockRunId 2, true⟩) ∧
      (let s := after [.start (startOf none .fail), .wait (text "w") [],
        .start (startOf none .fail)]
        let reset := s.mockClientReset false ⟨text "w", mockRunId 1, text "r", [], 2⟩
        s.runs.map (fun e => (e.runId, e.terminal)) =
            [(mockRunId 1, .completed), (mockRunId 2, .pending)] ∧
          reset.1.runs.map (fun e => (e.runId, e.terminal)) =
            [(mockRunId 1, .completed), (mockRunId 2, .terminated), (mockRunId 3, .pending)]) := by
  decide +kernel

end OcamlTemporal.Mock
