import Mathlib
import OcamlTemporal.Bridge.Completions
import OcamlTemporal.Lib.Outcome
import OcamlTemporal.Protocol.Completions

/-!
# OcamlTemporal.Sound.Completions

**Both sides check a completion against its activation alike.** `Answers` is what they check, in
neither's words: the results of a query activation are its only commands and a permutation of its
queries, and no other activation is answered with a query result. The check in OCaml compares sorted
lists, the one in Rust grows a set; that they agree rests on what the decoder guarantees of the jobs
and the encoder of the commands.
-/

namespace OcamlTemporal.Protocol.Completions

open Lib (Json)
open Codec (Decoder)

/-- The completion answers the queries of the activation, and only them. -/
def Answers (activation : Activation) (completion : Protocol.Completion) : Prop :=
  let queryIds := activation.jobs.filterMap queryId?
  let resultIds := completion.commands.filterMap resultId?
  if queryIds = [] then resultIds = []
  else resultIds.length = completion.commands.length ∧ resultIds.Perm queryIds

/-! ## What the decoder guarantees -/

/-- The jobs of an activation are all queries with distinct identifiers, or none is. -/
def QueryRule (jobs : List ActivationJob) : Prop :=
  jobs.filterMap queryId? = [] ∨
    (jobs.filterMap queryId?).length = jobs.length ∧ (jobs.filterMap queryId?).Nodup

theorem filterMap_eq_nil_of_countP {α β : Type} {f : α → Option β} {l : List α}
    (h : l.countP (fun a => (f a).isSome) = 0) : l.filterMap f = [] := by
  refine List.filterMap_eq_nil_iff.mpr fun a ha => ?_
  have hnone := List.countP_eq_zero.mp h a ha
  rwa [Option.not_isSome_iff_eq_none] at hnone

variable {path : Bytes} {json : Json} {activation : Activation}
  {completionCommandJson : CompletionCommand → Except Control.Error Json}
  {completion : Protocol.Completion}

theorem validateQueryJobsLoop_ok {seen : List Bytes} {jobs : List ActivationJob}
    (h : validateQueryJobsLoop path seen jobs = .ok ()) :
    (jobs.filterMap queryId?).Nodup ∧ ∀ id ∈ jobs.filterMap queryId?, id ∉ seen := by
  induction jobs generalizing seen with
  | nil => exact ⟨List.nodup_nil, List.forall_mem_nil _⟩
  | cons job jobs ih =>
    rw [validateQueryJobsLoop] at h
    cases hid : queryId? job with
    | none => rw [hid] at h; cases h
    | some id =>
      rw [hid] at h
      simp only at h
      split_ifs at h with hseen
      obtain ⟨hnodup, hfresh⟩ := ih h
      rw [List.filterMap_cons_some hid]
      refine ⟨List.nodup_cons.mpr ⟨fun hmem => ?_, hnodup⟩, ?_⟩
      · exact hfresh id hmem List.mem_cons_self
      · refine List.forall_mem_cons.mpr ⟨fun hmem => hseen (List.contains_iff_mem.mpr hmem), ?_⟩
        exact fun id' hid' hmem => hfresh id' hid' (List.mem_cons_of_mem id hmem)

theorem validateQueryJobs_ok {jobs : List ActivationJob}
    (h : validateQueryJobs path jobs = .ok ()) :
    QueryRule jobs := by
  simp only [validateQueryJobs] at h
  split_ifs at h with hzero hall
  · exact .inl (filterMap_eq_nil_of_countP hzero)
  · refine .inr ⟨?_, (validateQueryJobsLoop_ok h).1⟩
    rw [List.length_filterMap_eq_countP]
    exact Classical.not_not.mp hall

theorem activationFromJson_rule {activationJob : Decoder ActivationJob}
    {activationMetadata : Decoder ActivationMetadata}
    (h : activationFromJson activationJob activationMetadata json = .ok activation) :
    QueryRule activation.jobs := by
  unfold activationFromJson at h
  obtain ⟨entries, -, h⟩ := Lib.bind_ok.mp h
  obtain ⟨runId, -, h⟩ := Lib.bind_ok.mp h
  obtain ⟨timestamp, -, h⟩ := Lib.bind_ok.mp h
  obtain ⟨isReplaying, -, h⟩ := Lib.bind_ok.mp h
  obtain ⟨historyLength, -, h⟩ := Lib.bind_ok.mp h
  obtain ⟨jobs, -, h⟩ := Lib.bind_ok.mp h
  obtain ⟨_, -, h⟩ := Lib.bind_ok.mp h
  obtain ⟨_, -, h⟩ := Lib.bind_ok.mp h
  obtain ⟨_, hquery, h⟩ := Lib.bind_ok.mp h
  obtain ⟨_, -, h⟩ := Lib.bind_ok.mp h
  obtain ⟨_, -, h⟩ := Lib.bind_ok.mp h
  obtain ⟨metadata, -, h⟩ := Lib.bind_ok.mp h
  obtain rfl := Except.ok.inj h
  exact validateQueryJobs_ok hquery

/-! ## What the encoder guarantees -/

theorem length_completionCommandsJson {commands : List CompletionCommand} {items : List Json}
    (h : completionCommandsJson completionCommandJson commands = .ok items) :
    items.length = commands.length := by
  induction commands generalizing items with
  | nil =>
    obtain rfl := Except.ok.inj h
    rfl
  | cons command commands ih =>
    obtain ⟨item, -, h⟩ := Lib.bind_ok.mp h
    obtain ⟨rest, hrest, h⟩ := Lib.bind_ok.mp h
    obtain rfl := Except.ok.inj h
    rw [List.length_cons, List.length_cons, ih hrest]

theorem length_listFrom {α : Type} {decode : Decoder α} {index : Nat} {items : List Json}
    {values : List α} (h : Codec.listFrom decode path index items = .ok values) :
    values.length = items.length := by
  induction items generalizing index values with
  | nil =>
    obtain rfl := Except.ok.inj h
    rfl
  | cons item items ih =>
    obtain ⟨value, -, h⟩ := Lib.bind_ok.mp h
    obtain ⟨rest, hrest, h⟩ := Lib.bind_ok.mp h
    obtain rfl := Except.ok.inj h
    rw [List.length_cons, List.length_cons, ih hrest]

theorem failureJson_obj {value : Failure} (h : Codec.failureJson value = .ok json) :
    ∃ entries, json = .obj entries := by
  rw [Codec.failureJson_eq] at h
  obtain ⟨_, -, h⟩ := Lib.bind_ok.mp h
  obtain ⟨_, -, h⟩ := Lib.bind_ok.mp h
  obtain ⟨_, -, h⟩ := Lib.bind_ok.mp h
  exact ⟨_, (Except.ok.inj h).symm⟩

section

variable {runId : Json} {items : List Json} {more : List (Bytes × Json)}

/-- The members of a completion, as the encoder lays them out. -/
def members (runId : Json) (items : List Json) (more : List (Bytes × Json)) : List (Bytes × Json) :=
  [(text "run_id", runId), (text "commands", .arr items)] ++ more

theorem lookup_commands :
    (members runId items more).lookup (text "commands") = some (.arr items) := by
  have hne : (text "commands" == text "run_id") = false := by decide +kernel
  simp only [members, List.cons_append, List.lookup_cons, hne, beq_self_eq_true]

theorem lookup_taskFailure :
    (members runId items more).lookup (text "task_failure") = more.lookup
    (text "task_failure") := by
  have hrun : (text "task_failure" == text "run_id") = false := by decide +kernel
  have hcommands : (text "task_failure" == text "commands") = false := by decide +kernel
  simp only [members, List.cons_append, List.nil_append, List.lookup_cons, hrun, hcommands]

theorem completionFromJson_ok {completionCommand : Decoder CompletionCommand}
    {completion : Protocol.Completion}
    (h : completionFromJson completionCommand (.obj (members runId items more)) = .ok completion) :
    ∃ failure, taskFailure (members runId items more) = .ok failure ∧
      (failure.isSome = true → items = []) := by
  unfold completionFromJson at h
  obtain ⟨entries, hentries, h⟩ := Lib.bind_ok.mp h
  obtain ⟨_, -, h⟩ := Lib.bind_ok.mp h
  obtain ⟨commands, hcommands, h⟩ := Lib.bind_ok.mp h
  obtain ⟨_, -, h⟩ := Lib.bind_ok.mp h
  obtain ⟨_, -, h⟩ := Lib.bind_ok.mp h
  obtain ⟨_, -, h⟩ := Lib.bind_ok.mp h
  obtain ⟨_, -, h⟩ := Lib.bind_ok.mp h
  obtain ⟨failure, hfailure, h⟩ := Lib.bind_ok.mp h
  obtain ⟨behavior, -, hlast⟩ := Lib.bind_ok.mp h
  have hsame : entries = members runId items more := by
    simp only [Codec.exactObject] at hentries
    split_ifs at hentries
    exact (Except.ok.inj hentries).symm
  subst hsame
  refine ⟨failure, hfailure, fun hsome => ?_⟩
  have hlist : Codec.listFrom completionCommand (Codec.sub root "commands") 0 items =
    .ok commands := by
    rw [Codec.member, Codec.field, Control.field, lookup_commands] at hcommands
    exact hcommands
  have hlength := length_listFrom hlist
  cases commands with
  | nil => exact List.eq_nil_of_length_eq_zero hlength.symm
  | cons command rest =>
    rw [hsome] at hlast
    cases hlast

end

/-- A completion that the encoder accepts has commands or fails its task, not both. -/
theorem encodeCompletion_rule {completionCommand : Decoder CompletionCommand} {output : Bytes}
    (h : encodeCompletion completionCommandJson completionCommand completion = .ok output) :
    completion.taskFailure.isSome = true → completion.commands = [] := by
  intro hsome
  obtain ⟨value, hvalue⟩ := Option.isSome_iff_exists.mp hsome
  unfold encodeCompletion at h
  obtain ⟨items, hitems, h⟩ := Lib.bind_ok.mp h
  obtain ⟨fields, hfields, h⟩ := Lib.bind_ok.mp h
  obtain ⟨_, -, h⟩ := Lib.bind_ok.mp h
  obtain ⟨decoded, hdecoded, -⟩ := Lib.bind_ok.mp h
  rw [hvalue] at hfields
  obtain ⟨json, hjson, hfields⟩ := Lib.bind_ok.mp hfields
  obtain rfl := Except.ok.inj hfields
  obtain ⟨entries, rfl⟩ := failureJson_obj hjson
  obtain ⟨failure, hfailure, hempty⟩ := completionFromJson_ok hdecoded
  rw [taskFailure, lookup_taskFailure, List.singleton_append, List.lookup_cons_self] at hfailure
  have hitemsEmpty : items = [] := by
    refine hempty ?_
    cases hread : Codec.failure (Codec.sub root "task_failure") (.obj entries) with
    | error e =>
      simp only [hread] at hfailure
      cases hfailure
    | ok decodedFailure =>
      simp only [hread] at hfailure
      obtain rfl := Except.ok.inj hfailure
      rfl
  have hlength := length_completionCommandsJson hitems
  rw [hitemsEmpty] at hlength
  exact List.eq_nil_of_length_eq_zero hlength.symm

/-! ## The check in OCaml -/

theorem hasDuplicate_eq_false {seen ids : List Bytes} :
    hasDuplicate seen ids = false ↔ ids.Nodup ∧ ∀ id ∈ ids, id ∉ seen := by
  induction ids generalizing seen with
  | nil => exact ⟨fun _ => ⟨List.nodup_nil, List.forall_mem_nil _⟩, fun _ => rfl⟩
  | cons id ids ih =>
    rw [hasDuplicate, Bool.or_eq_false_iff, ih, List.nodup_cons, List.forall_mem_cons]
    rw [← Bool.not_eq_true, List.contains_iff_mem]
    constructor
    · rintro ⟨hseen, hnodup, hfresh⟩
      exact ⟨⟨fun hmem => hfresh id hmem List.mem_cons_self, hnodup⟩, hseen,
        fun id' hid' hmem => hfresh id' hid' (List.mem_cons_of_mem id hmem)⟩
    · rintro ⟨⟨hid, hnodup⟩, hseen, hfresh⟩
      refine ⟨hseen, hnodup, fun id' hid' hmem => ?_⟩
      rcases List.mem_cons.mp hmem with rfl | hmem
      · exact hid hid'
      · exact hfresh id' hid' hmem

theorem toNat_bytes_injective : Function.Injective (List.map UInt8.toNat) :=
  List.map_injective_iff.mpr fun _ _ h => UInt8.toNat_inj.mp h

/-- Sorting decides whether two lists hold the same identifiers equally often. -/
theorem sortIds_eq_iff {a b : List Bytes} : sortIds a = sortIds b ↔ a.Perm b := by
  have hperm : ∀ ids, (sortIds ids).Perm ids := fun ids => List.perm_insertionSort _ ids
  constructor
  · intro h
    exact (hperm a).symm.trans (h ▸ hperm b)
  · intro h
    have hsorted : ∀ ids, (sortIds ids).Pairwise fun a b : Bytes =>
        a.map UInt8.toNat ≤ b.map UInt8.toNat := by
      intro ids
      have : Std.Total fun a b : Bytes => a.map UInt8.toNat ≤ b.map UInt8.toNat :=
        ⟨fun a b => le_total _ _⟩
      have : IsTrans Bytes fun a b => a.map UInt8.toNat ≤ b.map UInt8.toNat :=
        ⟨fun _ _ _ => le_trans⟩
      exact List.pairwise_insertionSort _ ids
    refine List.Perm.eq_of_pairwise (fun x y _ _ hxy hyx => ?_) (hsorted a) (hsorted b)
      (((hperm a).trans h).trans (hperm b).symm)
    exact toNat_bytes_injective (le_antisymm hxy hyx)

/-- The check in OCaml, of an activation as the decoder gives it. -/
theorem validateCompletion_iff (hjobs : QueryRule activation.jobs) :
    validateCompletionForActivation activation completion = .ok () ↔
      Answers activation completion := by
  unfold validateCompletionForActivation Answers
  simp only
  by_cases hnone : activation.jobs.filterMap queryId? = []
  · rw [if_pos hnone, if_pos hnone]
    split_ifs with hresults
    · exact ⟨fun _ => hresults, fun _ => rfl⟩
    · exact ⟨fun h => (by cases h), fun h => absurd h hresults⟩
  · rw [if_neg hnone, if_neg hnone]
    obtain ⟨hlength, hnodup⟩ := hjobs.resolve_left hnone
    have hdistinct : hasDuplicate [] (activation.jobs.filterMap queryId?) = false :=
      hasDuplicate_eq_false.mpr ⟨hnodup, fun _ _ => List.not_mem_nil⟩
    rw [if_neg (not_not.mpr hlength), hdistinct, if_neg Bool.false_ne_true]
    split_ifs with hdup hmismatch
    · -- A permutation of distinct identifiers has no duplicate.
      refine ⟨fun h => (by cases h), fun ⟨_, hperm⟩ => ?_⟩
      have hresults : hasDuplicate [] (completion.commands.filterMap resultId?) = false :=
        hasDuplicate_eq_false.mpr ⟨hperm.nodup_iff.mpr hnodup, fun _ _ => List.not_mem_nil⟩
      rw [hresults] at hdup
      cases hdup
    · refine ⟨fun h => (by cases h), fun ⟨hall, hperm⟩ => ?_⟩
      rcases hmismatch with hmismatch | hmismatch
      · exact absurd hall hmismatch
      · exact absurd (sortIds_eq_iff.mpr hperm.symm) hmismatch
    · rw [not_or, not_not, not_not] at hmismatch
      exact ⟨fun _ => ⟨hmismatch.1, (sortIds_eq_iff.mp hmismatch.2).symm⟩, fun _ => rfl⟩

/-! ## The check in Rust -/

theorem bridge_queryId? : Bridge.Completions.queryId? = queryId? := by
  funext job
  cases job with
  | _ => rfl

theorem isQueryResult_eq (command : CompletionCommand) :
    Bridge.Completions.isQueryResult command = (resultId? command).isSome := by
  cases command with
  | _ => rfl

open Bridge.Completions (collectResultIds checkForActivation isEviction)

/-- The loop in Rust collects the results if they are the only commands, each for a query that has
no result yet. -/
theorem collectResultIds_eq_ok {queryIds resultIds collected : Finset Bytes}
    {commands : List CompletionCommand} :
    collectResultIds queryIds resultIds commands = .ok collected ↔
      (commands.filterMap resultId?).length = commands.length ∧
        (commands.filterMap resultId?).Nodup ∧
        (∀ id ∈ commands.filterMap resultId?, id ∈ queryIds ∧ id ∉ resultIds) ∧
        collected = resultIds ∪ (commands.filterMap resultId?).toFinset := by
  induction commands generalizing resultIds with
  | nil =>
    simp only [collectResultIds, List.filterMap_nil, List.length_nil, List.nodup_nil,
      List.not_mem_nil, false_implies, implies_true, true_and, List.toFinset_nil,
      Finset.union_empty,
      Except.ok.injEq]
    exact eq_comm
  | cons command rest ih =>
    cases hid : resultId? command with
    | none =>
      have hlength :
        ¬ ((command :: rest).filterMap resultId?).length = (command :: rest).length := by
        rw [List.filterMap_cons_none hid, List.length_cons]
        have := List.length_filterMap_le resultId? rest
        omega
      refine ⟨fun h => ?_, fun h => absurd h.1 hlength⟩
      cases command with
      | queryResult id result => cases hid
      | _ => cases h
    | some id =>
      obtain ⟨result, rfl⟩ : ∃ result, command = .queryResult id result := by
        cases command with
        | queryResult id' result =>
          obtain rfl := Option.some.inj hid
          exact ⟨result, rfl⟩
        | _ => cases hid
      rw [collectResultIds, List.filterMap_cons_some hid]
      split_ifs with hbad
      · refine ⟨fun h => (by cases h), fun ⟨_, _, hids, _⟩ => ?_⟩
        obtain ⟨hquery, hfresh⟩ := hids id List.mem_cons_self
        rcases hbad with hbad | hbad
        · exact absurd hquery hbad
        · exact absurd hbad hfresh
      · rw [not_or, not_not] at hbad
        rw [ih, List.length_cons, List.length_cons, Nat.succ_inj, List.nodup_cons,
          List.forall_mem_cons, List.toFinset_cons, Finset.insert_union, Finset.union_insert]
        constructor
        · rintro ⟨hlength, hnodup, hids, hcollected⟩
          refine ⟨hlength, ⟨fun hmem => ?_, hnodup⟩, ⟨hbad, fun id' hid' => ?_⟩, hcollected⟩
          · exact (hids id hmem).2 (Finset.mem_insert_self _ _)
          · exact ⟨(hids id' hid').1, fun hmem => (hids id' hid').2 (Finset.mem_insert_of_mem hmem)⟩
        · rintro ⟨hlength, ⟨hnew, hnodup⟩, ⟨-, hids⟩, hcollected⟩
          refine ⟨hlength, hnodup, fun id' hid' => ⟨(hids id' hid').1, fun hmem => ?_⟩, hcollected⟩
          rcases Finset.mem_insert.mp hmem with rfl | hmem
          · exact hnew hid'
          · exact (hids id' hid').2 hmem

/-- The check in Rust, of an activation as the decoder gives it and a completion as the encoder
takes it. -/
theorem checkForActivation_iff (hjobs : QueryRule activation.jobs)
    (hrun : activation.runId = completion.runId)
    (hfailure : completion.taskFailure.isSome = true → completion.commands = [])
    (heviction : isEviction activation.jobs = true → completion.commands = [] ∧
      completion.taskFailure = none) :
    checkForActivation activation completion = .ok () ↔ Answers activation completion := by
  have hempty : (isEviction activation.jobs &&
      (!completion.commands.isEmpty || completion.taskFailure.isSome)) = false := by
    cases hev : isEviction activation.jobs with
    | false => rfl
    | true =>
      obtain ⟨hcommands, htask⟩ := heviction hev
      rw [hcommands, htask]
      rfl
  unfold checkForActivation Answers
  simp only [bridge_queryId?]
  rw [if_neg (not_not.mpr hrun), hempty, if_neg Bool.false_ne_true]
  by_cases hnone : activation.jobs.filterMap queryId? = []
  · have hany : completion.commands.any Bridge.Completions.isQueryResult = true ↔
        ¬ completion.commands.filterMap resultId? = [] := by
      rw [List.any_eq_true, List.filterMap_eq_nil_iff]
      simp only [isQueryResult_eq, Option.isSome_iff_ne_none, ne_eq, not_forall, exists_prop]
    rw [if_pos (by rw [hnone]; rfl), if_pos hnone]
    split_ifs with hresults
    · exact ⟨fun h => (by cases h), fun h => absurd h (hany.mp hresults)⟩
    · exact ⟨fun _ => not_not.mp (mt hany.mpr hresults), fun _ => rfl⟩
  · obtain ⟨hlength, hnodup⟩ := hjobs.resolve_left hnone
    rw [if_neg (by rwa [List.toFinset_eq_empty_iff]), if_neg hnone]
    split_ifs with htask
    · -- A failed task has no commands, so that the queries have no results.
      refine ⟨fun h => (by cases h), fun ⟨_, hperm⟩ => absurd ?_ hnone⟩
      rw [hfailure htask, List.filterMap_nil] at hperm
      exact hperm.symm.eq_nil
    · constructor
      · intro h
        cases hcollect : collectResultIds (activation.jobs.filterMap queryId?).toFinset ∅
            completion.commands with
        | error e => rw [hcollect] at h; cases h
        | ok collected =>
          rw [hcollect] at h
          simp only at h
          split_ifs at h with hsame
          obtain ⟨hall, hdistinct, -, hcollected⟩ := collectResultIds_eq_ok.mp hcollect
          rw [Finset.empty_union] at hcollected
          refine ⟨hall, List.perm_of_nodup_nodup_toFinset_eq hdistinct hnodup ?_⟩
          rw [← hcollected]
          exact not_not.mp hsame
      · rintro ⟨hall, hperm⟩
        have hcollect := collectResultIds_eq_ok.mpr ⟨hall, hperm.nodup_iff.mpr hnodup,
          fun id hid => ⟨List.mem_toFinset.mpr (hperm.mem_iff.mp hid), Finset.notMem_empty id⟩, rfl⟩
        rw [hcollect]
        simp only
        rw [if_neg]
        rw [not_not, Finset.empty_union]
        exact List.toFinset_eq_of_perm _ _ hperm

/-- For an activation that the decoder accepts and a completion that the encoder accepts, of the
same run and empty for an eviction, the check in OCaml and the checks in Rust both succeed exactly
if the completion answers the queries of the activation. -/
theorem completion_checks_agree {activationJob : Decoder ActivationJob}
    {activationMetadata : Decoder ActivationMetadata}
    {completionCommand : Decoder CompletionCommand} {output : Bytes}
    (hactivation : activationFromJson activationJob activationMetadata json = .ok activation)
    (hcompletion : encodeCompletion completionCommandJson completionCommand completion = .ok output)
    (hrun : activation.runId = completion.runId)
    (heviction : isEviction activation.jobs = true → completion.commands = [] ∧
      completion.taskFailure = none) :
    (validateCompletionForActivation activation completion = .ok () ↔
        Answers activation completion) ∧
      (validateCompletionForActivation activation completion = .ok () ↔
        checkForActivation activation completion = .ok ()) := by
  have hjobs := activationFromJson_rule hactivation
  have hocaml : validateCompletionForActivation activation completion = .ok () ↔
      Answers activation completion := validateCompletion_iff hjobs
  have hrust := checkForActivation_iff hjobs hrun (encodeCompletion_rule hcompletion) heviction
  exact ⟨hocaml, hocaml.trans hrust.symm⟩

/-- Two queries answered in the other order. -/
theorem completion_checks_agree_twoQueries :
    let job : Decoder ActivationJob := fun _ json =>
      match json with
      | .str id => .ok (.queryWorkflow id [] [] [])
      | _ => .error (Codec.invalid [] "")
    let command : Decoder CompletionCommand := fun _ json =>
      match json with
      | .str id => .ok (.queryResult id (.succeeded ⟨[], []⟩))
      | _ => .error (Codec.invalid [] "")
    let commandJson : CompletionCommand → Except Control.Error Json := fun command =>
      .ok (.str ((resultId? command).getD []))
    let completion : Protocol.Completion :=
      ⟨text "r", [.queryResult [98] (.succeeded ⟨[], []⟩), .queryResult [97] (.succeeded ⟨[], []⟩)],
        none, none⟩
    ∃ json activation output,
      activationFromJson job (fun _ _ => .error (Codec.invalid [] "")) json = .ok activation ∧
      encodeCompletion commandJson command completion = .ok output ∧
      validateCompletionForActivation activation completion = .ok () ∧
      (validateCompletionForActivation activation completion = .ok () ↔
        checkForActivation activation completion = .ok ()) := by
  intro job command commandJson completion
  have hactivation : activationFromJson job (fun _ _ => .error (Codec.invalid [] ""))
      (.obj [(text "run_id", .str (text "r")),
        (text "timestamp", .obj [(text "seconds", .int 0), (text "nanoseconds", .int 0)]),
        (text "is_replaying", .bool false), (text "history_length", .int 3),
        (text "jobs", .arr [.str [97], .str [98]])]) =
      .ok ⟨text "r", some ⟨0, 0⟩, false, 3,
        [.queryWorkflow [97] [] [] [], .queryWorkflow [98] [] [] []], none⟩ := by rfl
  obtain ⟨output, houtput⟩ := Lib.exists_of_isOk
    (show (encodeCompletion commandJson command completion).isOk = true by decide +kernel)
  exact ⟨_, _, output, hactivation, houtput, rfl,
    (completion_checks_agree hactivation houtput rfl fun h => (by cases h)).2⟩

end OcamlTemporal.Protocol.Completions
