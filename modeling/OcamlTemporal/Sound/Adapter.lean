import OcamlTemporal.Activity.Books
import OcamlTemporal.Lib.Transitions

/-!
# OcamlTemporal.Sound.Adapter

**No start token is lost and none is completed twice.** Every function of the
activity lane keeps the books of `OcamlTemporal.Activity.Books`; `LaneKept` adds what is
known of the attempt whose callback is running.

* `outstanding_token_in_one_place`: runs with drains and discards, of tokens that
  completions can be encoded for.
* `cancellation_has_one_outcome`: runs of polls, sweeps and callbacks.

Both rest on what the supervisor delivers, as a condition on the steps of a run.
-/

namespace OcamlTemporal.Activity

open OcamlTemporal.Protocol
open OcamlTemporal.Lib (Justified)

namespace Adapter

variable {enc : CompletionEncoder} {eligible : Bytes → Prop} {s : Adapter} {hand : List Bytes}
  {t : Bytes} {activityType : Option Bytes} {result : CompletionResult}
  {accepted accepted' : AcceptedResult} {answer : Answer}

/-! ## Encoding

A completion that cannot be encoded is replaced by a failure of the same token. Only where that
cannot be encoded either is a token without any completion, and `Good` excludes this. -/

variable {encoded : Bytes} {lease : Lease}

/-- The encoder accepts the token of every completion that is recorded. -/
theorem encodeOrReplace_accepts
    (h : encodeOrReplace enc t result accepted = .ok (encoded, accepted')) :
    enc.acceptsToken t = true := by
  unfold encodeOrReplace at h
  split at h
  · rename_i hok
    exact enc.token_of_ok hok
  · split at h
    · rename_i hok
      exact enc.token_of_ok hok
    · cases h

/-- A completion that is replaced hands nothing off. -/
theorem encodeOrReplace_handoff {handle : Handle}
    (h : encodeOrReplace enc t result accepted = .ok (encoded, .asyncHandoff handle)) :
    accepted = .asyncHandoff handle := by
  unfold encodeOrReplace at h
  split at h
  · cases h
    rfl
  · split at h <;> cases h

theorem encodeOrReplace_ok (result : CompletionResult) (accepted : AcceptedResult)
    (h : enc.acceptsToken t = true) :
    ∃ encoded accepted', encodeOrReplace enc t result accepted = .ok (encoded, accepted') := by
  unfold encodeOrReplace
  split
  · exact ⟨_, _, rfl⟩
  · rename_i e herror
    obtain ⟨encoded, hok⟩ := enc.encodes_failure h herror
    rw [hok]
    exact ⟨_, _, rfl⟩

theorem encodeOrReplace_cancelled {c : ActivityCancel}
    (h : encodeOrReplace enc t (cancelledCompletion c).1 accepted = .ok (encoded, accepted')) :
    enc.encode ⟨t, (cancelledCompletion c).1⟩ = .ok encoded := by
  obtain ⟨encoded', hok⟩ := enc.encodes_cancelled (encodeOrReplace_accepts h) c
  simp only [encodeOrReplace, hok] at h
  cases h
  exact hok

theorem cancelledCompletion_completed (c : ActivityCancel) (handle : Handle) :
    (cancelledCompletion c).2 ≠ .asyncHandoff handle := by
  unfold cancelledCompletion
  split <;> simp

/-! ## Submitting keeps the books

From the lease of one completion to the functions that record one and try to submit it at once. -/

theorem submitLease_books (hs : Books enc eligible s hand) (hlease : lease ∈ s.leases)
    (hnone : lease.retryRefusal = none) :
    Books enc eligible (s.submitLease lease answer).1 hand := by
  cases answer with
  | rejected retryable | raised retryable =>
    cases retryable with
    | true => exact hs.submit_retryable hlease hnone rfl _
    | false => exact hs.submit_refused hlease hnone (by simp) _ _
  | accepted =>
    simp only [submitLease]
    cases haccepted : lease.acceptedResult with
    | completed kind details => exact hs.submit_accepted hlease hnone false
    | rejected e origin => exact hs.submit_accepted hlease hnone false
    | asyncHandoff handle =>
      -- the handle is still pending and the token was never accepted, so the lease is admitted
      have hpending := hs.retained.pending lease hlease handle haccepted
      have hnew : lease.token ∉ s.asyncLeases := fun hmem =>
        (hs.counted.of_lease (List.mem_map_of_mem hlease)).2.2 (hs.retained.async _ hmem)
      have hadmitted : ∀ e, (s.note e).admitAsyncLease lease.token handle =
          .ok ({ s.note e with asyncLeases := s.asyncLeases ++ [lease.token] }.note
            (.handedOff lease.token)) := by
        intro e
        simp only [admitAsyncLease, note, hnew, Handle.activate, hpending, if_false]
      dsimp only
      rw [hadmitted]
      exact (hs.submit_accepted hlease hnone true).note trivial (fun _ h => by cases h) trivial

theorem submitLease_trace (hnot : ∀ handle, lease.acceptedResult ≠ .asyncHandoff handle) :
    (s.submitLease lease answer).1.trace =
      s.trace ++ [.submitted lease.token lease.encoded false answer] := by
  have hhandoff : lease.acceptedResult.isHandoff = false := by
    cases haccepted : lease.acceptedResult with
    | completed | rejected => rfl
    | asyncHandoff handle => exact absurd haccepted (hnot handle)
  rw [← hhandoff]
  cases answer with
  | rejected retryable | raised retryable => cases retryable <;> rfl
  | accepted =>
    simp only [submitLease]
    split
    · rfl
    · rfl
    · rename_i handle haccepted
      exact absurd haccepted (hnot handle)

theorem finishLease_books (hs : Books enc eligible s hand) (hlease : lease ∈ s.leases)
    (answer : Answer) : Books enc eligible (s.finishLease lease answer).1 hand := by
  unfold finishLease
  split
  · exact hs
  · rename_i hnone
    exact submitLease_books hs hlease hnone

theorem finishLease_lane (s : Adapter) (lease : Lease) (answer : Answer) :
    (s.finishLease lease answer).1.lane = s.lane := by
  unfold finishLease
  split
  · rfl
  · cases answer with
    | rejected retryable | raised retryable => cases retryable <;> rfl
    | accepted =>
      simp only [submitLease]
      split
      · rfl
      · rfl
      · unfold admitAsyncLease
        split
        · rename_i heq
          rfl
        · rename_i s₁ heq
          split at heq
          · cases heq
          · split at heq <;> cases heq
            rfl

theorem admitCompletion_trace (enc : CompletionEncoder) (s : Adapter) (t : Bytes)
    (activityType : Option Bytes) (result : CompletionResult) (accepted : AcceptedResult) :
    (s.admitCompletion enc t activityType result accepted).1.trace =
      s.trace ++ [.built t result] := by
  unfold admitCompletion
  dsimp only
  split
  · rfl
  · split <;> rfl

/-- Recording the completion of a token in hand. Only a token that no completion can
be encoded for is lost. -/
theorem admitCompletion_books (hs : Books enc eligible s (t :: hand)) (hne : t.length ≠ 0)
    (hbuilt : BuiltOk enc s.trace t result)
    (hpending : ∀ handle, accepted = .asyncHandoff handle → handle.lifecycle = .handoffPending)
    (activityType : Option Bytes) :
    Books enc eligible (s.admitCompletion enc t activityType result accepted).1 hand ∧
      (∀ lease, (s.admitCompletion enc t activityType result accepted).2 = .ok lease →
        lease ∈ (s.admitCompletion enc t activityType result accepted).1.leases) ∧
      (Good enc t →
        ∃ lease, (s.admitCompletion enc t activityType result accepted).2 = .ok lease) := by
  have hplace := hs.counted.of_hand List.mem_cons_self
  have hnoted : Books enc eligible (s.note (.built t result)) (t :: hand) :=
    hs.note trivial (by rintro u rfl; exact ⟨hplace.1, hplace.2.1⟩) hbuilt
  unfold admitCompletion
  dsimp only
  cases hencode : encodeOrReplace enc t result accepted with
  | error e =>
    have hbad : ¬ Good enc t := fun hgood => by
      obtain ⟨encoded, accepted', hok⟩ := encodeOrReplace_ok result accepted hgood.2
      rw [hok] at hencode
      cases hencode
    exact ⟨hnoted.lose hbad, (fun _ h => by cases h), fun hgood => absurd hgood hbad⟩
  | ok p =>
    obtain ⟨encoded, acceptedResult⟩ := p
    have hnew : t ∉ (s.note (.built t result)).leases.map Lease.token := hplace.2.2.1
    dsimp only
    rw [if_neg hnew]
    refine ⟨?_, ?_, fun _ => ⟨_, rfl⟩⟩
    · refine Books.admit_new hnoted ⟨hne, encodeOrReplace_accepts hencode⟩ ?_ ?_
      · exact ⟨result, accepted, acceptedResult, by simp [note], hencode⟩
      · rintro handle rfl
        exact hpending handle (encodeOrReplace_handoff hencode)
    · intro lease hlease
      cases hlease
      exact mem_insertLease.mpr (.inl rfl)

/-- Nothing can be recorded for a token that the encoder refuses. -/
theorem admitCompletion_bad (hbad : enc.acceptsToken t ≠ true) (s : Adapter)
    (activityType : Option Bytes) (result : CompletionResult) (accepted : AcceptedResult) :
    ∃ e, s.admitCompletion enc t activityType result accepted =
      (s.note (.built t result), .error e) := by
  unfold admitCompletion
  dsimp only
  cases hencode : encodeOrReplace enc t result accepted with
  | error e => exact ⟨e, rfl⟩
  | ok p => exact absurd (encodeOrReplace_accepts hencode) hbad

theorem enqueueAndFinish_books (hs : Books enc eligible s (t :: hand)) (hne : t.length ≠ 0)
    (hbuilt : BuiltOk enc s.trace t result)
    (hpending : ∀ handle, accepted = .asyncHandoff handle → handle.lifecycle = .handoffPending) :
    Books enc eligible (s.enqueueAndFinish enc t activityType result accepted answer).1 hand := by
  have ⟨hbooks, hmem, _⟩ :=
    admitCompletion_books hs hne hbuilt hpending activityType
  unfold enqueueAndFinish
  revert hbooks hmem
  generalize s.admitCompletion enc t activityType result accepted = r
  obtain ⟨s', e | lease⟩ := r
  · exact fun hbooks _ => hbooks
  · exact fun hbooks hmem => finishLease_books hbooks (hmem lease rfl) answer

end Adapter

/-! ## Which results may be reported

The result of an attempt is checked against what was delivered for it before, which is where a
cancellation and the end of a callback can race. -/

section Built

variable {enc : CompletionEncoder} {trace : List Event} {t : Bytes} {result : CompletionResult}

theorem BuiltOk.of_ran (hran : .ran t ∈ trace)
    (hcancelled : ∀ failure, result = .cancelled failure → deliveredCancels t trace ≠ []) :
    BuiltOk enc trace t result :=
  ⟨fun _ => hcancelled, fun _ hnot => absurd hran hnot⟩

/-- Any result, if nothing has happened to the attempt and it was not cancelled. -/
theorem BuiltOk.of_untouched (hnew : ∀ e ∈ trace, ¬ e.Touches t)
    (hnone : deliveredCancels t trace = []) : BuiltOk enc trace t result := by
  refine ⟨fun hran => absurd rfl (hnew _ hran), fun _ _ c hc => ?_⟩
  rw [hnone] at hc
  cases hc

/-- The result that the first cancellation decides. -/
theorem BuiltOk.of_cancelled {c : ActivityCancel} (hc : (deliveredCancels t trace).head? = some c) :
    BuiltOk enc trace t (cancelledCompletion c).1 := by
  refine ⟨fun _ _ _ hnil => ?_, fun _ _ c' hc' => ?_⟩
  · rw [hnil] at hc
    cases hc
  · rw [hc] at hc'
    cases hc'
    rfl

end Built

/-- A start that is cancelled before anything has happened to it never runs, and only
its first cancellation is submitted. -/
theorem cancelled_first {enc : CompletionEncoder} {eligible : Bytes → Prop} {trace : List Event}
    {before after : List Event} {t : Bytes} {c : ActivityCancel}
    (h : Justified (Allowed enc eligible) trace)
    (htrace : trace = before ++ .delivered ⟨t, .cancel c⟩ :: after)
    (hnew : ∀ e ∈ before, ¬ e.Touches t) :
    .ran t ∉ trace ∧ ∃ first, (deliveredCancels t trace).head? = some first ∧
      ∀ encoded handoff answer, .submitted t encoded handoff answer ∈ trace →
        enc.encode ⟨t, (cancelledCompletion first).1⟩ = .ok encoded := by
  obtain ⟨first, hfirst⟩ : ∃ first,
      (deliveredCancels t (before ++ [.delivered ⟨t, .cancel c⟩])).head? = some first := by
    rw [deliveredCancels_snoc, Event.cancel?, if_pos rfl, List.head?_append]
    cases (deliveredCancels t before).head? with
    | none => exact ⟨c, rfl⟩
    | some c₀ => exact ⟨c₀, rfl⟩
  have hgrows : ∀ more, (deliveredCancels t
      (before ++ .delivered ⟨t, .cancel c⟩ :: more)).head? = some first := by
    intro more
    rw [List.append_cons, deliveredCancels, List.filterMap_append, List.head?_append]
    rw [deliveredCancels] at hfirst
    rw [hfirst]
    rfl
  -- what happens to the attempt happens after the cancellation
  have hlater : ∀ e ∈ trace, e.Touches t → ∃ more rest,
      trace = (before ++ .delivered ⟨t, .cancel c⟩ :: more) ++ e :: rest := by
    intro e he htouch
    rw [htrace] at he
    rcases List.mem_append.mp he with he | he
    · exact absurd htouch (hnew e he)
    · rcases List.mem_cons.mp he with rfl | he
      · cases htouch
      · obtain ⟨more, rest, rfl⟩ := List.append_of_mem he
        exact ⟨more, rest, by simp [htrace]⟩
  have hran : .ran t ∉ trace := by
    intro hran
    obtain ⟨more, rest, hsplit⟩ := hlater _ hran rfl
    have hnone := (h _ _ _ hsplit).2
    have hsome := hgrows more
    rw [hnone] at hsome
    cases hsome
  refine ⟨hran, first, htrace ▸ hgrows after, fun encoded handoff answer hsub => ?_⟩
  obtain ⟨more, rest, hsplit⟩ := hlater _ hsub rfl
  obtain ⟨hgood, ⟨result, accepted, accepted', hbuilt, hbytes⟩, -⟩ := h _ _ _ hsplit
  have hbuilt' : .built t result ∈ trace := hsplit ▸ List.mem_append_left _ hbuilt
  obtain ⟨more', rest', hsplit'⟩ := hlater _ hbuilt' rfl
  have hnotRan : .ran t ∉ before ++ .delivered ⟨t, .cancel c⟩ :: more' := fun hmem =>
    hran (hsplit' ▸ List.mem_append_left _ hmem)
  have hresult := (h _ _ _ hsplit').2 hgood hnotRan first (hgrows more')
  rw [hresult] at hbytes
  exact Adapter.encodeOrReplace_cancelled hbytes

/-! ## Steps keep the books

One lemma for each function that a step calls, from the inside out. `hand` is empty between the
steps, except for the token of a running callback. -/

def LaneState.hand : LaneState → List Bytes
  | .callback r => [r.token]
  | .idle _ | .draining => []

/-- The attempt whose callback is executing. Nothing is retained meanwhile, and the cancellation
that it can observe is the first one that was delivered for it. -/
structure Attempt (s : Adapter) (r : Running) : Prop where
  leases : s.leases = []
  nonempty : r.token.length ≠ 0
  ran : .ran r.token ∈ s.trace
  observed : r.observed = (deliveredCancels r.token s.trace).head?
  unseen : r.observed = none → ∀ c, .observed r.token c ∉ s.trace

/-- What is recorded about other attempts does not matter to the one that is running. -/
theorem Attempt.note {s : Adapter} {r : Running} {e : Event} (h : Attempt s r)
    (hcancel : e.cancel? r.token = none)
    (hobserved : ∀ c, e ≠ .observed r.token c) (deferred : List DeferredWork)
    (asyncLeases : List Bytes) : Attempt { s.note e with deferred, asyncLeases } r where
  leases := h.leases
  nonempty := h.nonempty
  ran := List.mem_append_left _ h.ran
  observed := by simpa [Adapter.note, hcancel] using h.observed
  unseen hnone c hc := by
    rcases List.mem_append.mp hc with hc | hc
    · exact h.unseen hnone c hc
    · exact hobserved c (List.mem_singleton.mp hc).symm

/-- The invariant of the lane: its books are balanced with what it has in hand, and if a callback is
running, what is known of that attempt. -/
structure LaneKept (enc : CompletionEncoder) (eligible : Bytes → Prop) (s : Adapter) : Prop where
  books : Books enc eligible s s.lane.hand
  running : ∀ r, s.lane = .callback r → Attempt s r

namespace Adapter

variable {enc : CompletionEncoder} {eligible : Bytes → Prop} {s : Adapter} {hand : List Bytes}
  {t : Bytes} {definitions : List (Bytes × Definition)} {answer : Answer}

theorem kept_idle {returned : Option (Except ErrorView Outcome)} (hs : Books enc eligible s []) :
    LaneKept enc eligible { s with lane := .idle returned } :=
  ⟨hs.lane _, fun _ h => by cases h⟩

theorem kept_ret {r : Adapter × Except ErrorView Outcome} (hs : Books enc eligible r.1 []) :
    LaneKept enc eligible (ret r) := kept_idle hs

theorem reject_books (hs : Books enc eligible s (t :: hand)) (hne : t.length ≠ 0)
    (hbuilt : ∀ failure, BuiltOk enc s.trace t (.failed failure)) {activityType : Option Bytes}
    {origin : RejectionOrigin} {failure : Failure} {e : ErrorView} :
    Books enc eligible
      (s.rejectTaskWithFailure enc t activityType origin failure e answer).1 hand :=
  enqueueAndFinish_books hs hne (hbuilt failure) (fun _ h => by cases h)

variable {start : ActivityStart} {decoded : Except DecodeFailure Unit} {rest : List DeferredWork}

theorem dispatch_kept {isAsync : Bool} (hs : Books enc eligible s [t]) (hleases : s.leases = [])
    (hne : t.length ≠ 0) (hnone : deliveredCancels t s.trace = [])
    (hnew : ∀ e ∈ s.trace, ¬ e.Touches t) :
    LaneKept enc eligible { s.note (.ran t) with lane := .callback ⟨t, start, isAsync, none⟩ } := by
  have hplace := hs.counted.of_hand List.mem_cons_self
  have hbooks := hs.note (e := .ran t) trivial
    (by rintro u rfl; exact ⟨hplace.1, hplace.2.1⟩) ⟨fun hran => hnew _ hran rfl, hnone⟩
  refine ⟨hbooks.lane _, ?_⟩
  intro r hr
  cases hr
  constructor
  · exact hleases
  · exact hne
  · simp [note]
  · simp [note, hnone, Event.cancel?]
  · intro _ c hc
    have hold : .observed t c ∈ s.trace := by simpa [note] using hc
    exact hnew _ hold rfl

theorem processStart_kept (hs : Books enc eligible s [t]) (hleases : s.leases = [])
    (hne : t.length ≠ 0) (hnone : deliveredCancels t s.trace = [])
    (hnew : ∀ e ∈ s.trace, ¬ e.Touches t) :
    LaneKept enc eligible (s.processStart enc definitions t start decoded answer) := by
  have hreject : ∀ {activityType origin failure e}, Books enc eligible
      (s.rejectTaskWithFailure enc t activityType origin failure e answer).1 [] :=
    reject_books hs hne fun _ => .of_untouched hnew hnone
  have hdecode : ∀ failure, LaneKept enc eligible
      (ret (s.rejectDecodeFailure enc t start answer failure)) := by
    intro failure
    cases failure <;> exact kept_ret hreject
  unfold processStart
  split
  · exact kept_ret hreject
  · split
    · split
      · exact hdecode _
      · split
        · exact dispatch_kept hs hleases hne hnone hnew
        · exact kept_ret hreject
    · split
      · split
        · exact hdecode _
        · exact dispatch_kept hs hleases hne hnone hnew
      · exact kept_ret hreject

theorem processTask_kept {task : ActivityTask} (hs : Books enc eligible s [])
    (hleases : s.leases = []) (hhead : s.deferred = .task task :: rest) :
    LaneKept enc eligible
      ({ s with deferred := rest }.processTask enc definitions task decoded answer) := by
  obtain ⟨t, start | c⟩ := task
  · unfold processTask
    dsimp only
    split
    · rename_i hempty
      exact kept_ret (hs.dropStart hhead fun hgood => hgood.1 hempty)
    · rename_i hne
      obtain ⟨hbooks, hcancels, hnew⟩ := hs.take hhead
      simp only [takeDeferredCancel]
      cases hfirst : (cancelsFor t rest).head? with
      | some c =>
        refine kept_ret (enqueueAndFinish_books hbooks hne ?_ ?_)
        · exact .of_cancelled (hcancels ▸ hfirst)
        · exact fun handle h => absurd h (cancelledCompletion_completed c handle)
      | none =>
        have hnone : deliveredCancels t s.trace = [] := by
          rw [← hcancels]
          exact List.head?_eq_none_iff.mp hfirst
        exact processStart_kept hbooks hleases hne hnone hnew
  · -- a bare cancellation: its start is gone, and nothing can be encoded for its token
    obtain ⟨hbooks, hbad, hout, hdelivered⟩ := hs.dropCancel hhead
    unfold processTask
    dsimp only
    split
    · exact kept_ret hbooks
    · rename_i hne
      refine kept_ret ?_
      obtain ⟨e, hadmitted⟩ := admitCompletion_bad (fun haccepts => hbad ⟨hne, haccepts⟩)
        { s with deferred := rest } none (cancelledCompletion c).1 (cancelledCompletion c).2
      simp only [processCancel, enqueueAndFinish, hadmitted]
      refine hbooks.note trivial ?_ ?_
      · rintro u rfl
        exact ⟨hs.started_of_cancel hdelivered, hout⟩
      · exact ⟨fun _ _ _ => List.ne_nil_of_mem (mem_deliveredCancels.mpr hdelivered),
          fun hgood => absurd hgood hbad⟩

theorem poll_kept {polled : Polled} (hs : Books enc eligible s [])
    (hlawful : ∀ task, polled = .ready task → Lawful eligible s.trace task) :
    LaneKept enc eligible (s.poll enc definitions polled decoded answer) := by
  unfold poll
  split
  · rename_i lease rest hleases
    exact kept_ret (finishLease_books hs (by simp [hleases]) answer)
  · rename_i hleases
    split
    · rename_i task rest hhead
      exact processTask_kept hs hleases hhead
    · rename_i e rest hhead
      exact kept_ret (hs.dropPollError hhead)
    · rename_i hempty
      cases polled with
      | notReady => exact kept_ret hs
      | failed e => exact kept_ret hs
      | ready task =>
        -- a task that is polled is like one that was deferred just before
        have hbooks : Books enc eligible { s.note (.delivered task) with
            deferred := s.deferred ++ [.task task] } [] := by
          obtain ⟨t, st | c⟩ := task
          · exact hs.deferStart st (hlawful _ rfl)
          · exact hs.deferCancel c (hlawful _ rfl) hleases List.not_mem_nil
        rw [hempty] at hbooks
        have hsame : s.note (.delivered task) =
          { s.note (.delivered task) with deferred := [] } := by
          rw [note, ← hempty]
        dsimp only
        rw [hsame]
        exact processTask_kept (s := { s.note (.delivered task) with deferred := [.task task] })
          hbooks hleases rfl

/-! ### Sweeps -/

theorem routeSweptTask_kept {r : Running} {task : ActivityTask} (hs : LaneKept enc eligible s)
    (hlane : s.lane = .callback r) (hlawful : Lawful eligible s.trace task) :
    LaneKept enc eligible ((s.note (.delivered task)).routeSweptTask r task) := by
  have hbooks : Books enc eligible s [r.token] := by simpa [hlane, LaneState.hand] using hs.books
  have hrun := hs.running r hlane
  have hdefer : ∀ {s' : Adapter}, s'.lane = s.lane → Books enc eligible s' [r.token] →
      Attempt s' r → LaneKept enc eligible s' := by
    intro s' hlane' hbooks' hrun'
    rw [hlane] at hlane'
    refine ⟨by simpa [hlane', LaneState.hand] using hbooks', fun r' hr' => ?_⟩
    cases hlane'.symm.trans hr'
    exact hrun'
  obtain ⟨t, st | c⟩ := task
  · exact hdefer rfl (hbooks.deferStart st hlawful) (hrun.note rfl (by simp) _ _)
  by_cases htoken : r.token = t
  · subst htoken
    have hdelivered := hbooks.deliverCancel c hlawful List.mem_cons_self
    have hhead := hrun.observed
    cases hobserved : r.observed with
    | some c₀ =>
      -- only the first cancellation is seen
      simp only [routeSweptTask, if_true, hobserved]
      refine hdefer rfl hdelivered ⟨hrun.leases, hrun.nonempty, List.mem_append_left _ hrun.ran, ?_,
        fun hnone => ?_⟩
      · rw [hobserved] at hhead ⊢
        simp [note, List.head?_append, ← hhead]
      · rw [hobserved] at hnone
        cases hnone
    | none =>
      rw [hobserved] at hhead
      have hnil : deliveredCancels r.token s.trace = [] := List.head?_eq_none_iff.mp hhead.symm
      have hplace := hdelivered.counted.of_hand List.mem_cons_self
      simp only [routeSweptTask, if_true, hobserved]
      refine ⟨Books.lane (hdelivered.note (e := .observed r.token c) trivial ?_ ?_) _, ?_⟩
      · rintro u rfl
        exact ⟨hplace.1, hplace.2.1⟩
      · refine ⟨fun c' hc' => hrun.unseen hobserved c' (by simpa [note] using hc'), ?_⟩
        simp [note, hnil, Event.cancel?]
      · rintro _ ⟨⟩
        refine ⟨hrun.leases, hrun.nonempty, ?_, ?_, fun hnone => by cases hnone⟩
        · simp [note, hrun.ran]
        · simp only [note, deliveredCancels_snoc, hnil, Event.cancel?, if_true]
          rfl
  · have hne : t ≠ r.token := fun heq => htoken heq.symm
    simp only [routeSweptTask, htoken, if_false]
    exact hdefer rfl (hbooks.deferCancel c hlawful hrun.leases (by simpa using hne))
      (hrun.note (by simp [Event.cancel?, hne]) (by simp) _ _)

/-! ### The end of a callback -/

theorem finishCallback_books {r : Running} {outcome : CallbackOutcome}
    {result : Adapter × Except ErrorView Outcome} (hs : Books enc eligible s [r.token])
    (hrun : Attempt s r) (h : s.finishCallback enc r answer outcome = some result) :
    Books enc eligible result.1 [] := by
  have hbuilt : ∀ {built}, (∀ failure, built ≠ .cancelled failure) →
      BuiltOk enc s.trace r.token built := fun hnot =>
    .of_ran hrun.ran fun failure heq => absurd heq (hnot failure)
  have hreject : ∀ {activityType origin failure e}, Books enc eligible
      (s.rejectTaskWithFailure enc r.token activityType origin failure e answer).1 [] :=
    reject_books hs hrun.nonempty fun _ => hbuilt (by simp)
  have hfail : ∀ e, Books enc eligible
      (s.failCallback enc r.token (some r.start.activityType) e answer).1 [] := by
    intro e
    unfold failCallback
    dsimp only
    split <;> exact hreject
  cases outcome with
  | raised message backtrace =>
    cases h
    exact hreject
  | codecRaised message =>
    cases h
    exact hreject
  | failed e =>
    unfold finishCallback at h
    dsimp only at h
    split at h
    · rename_i c hobserved
      split at h
      · cases h
        have hsome : deliveredCancels r.token s.trace ≠ [] := by
          intro hnil
          have hhead := hrun.observed
          rw [hobserved, hnil] at hhead
          cases hhead
        unfold completeAcknowledgedCancellation
        split
        · exact hreject
        · split
          · exact enqueueAndFinish_books hs hrun.nonempty (hbuilt (by simp)) (fun _ h => by cases h)
          · exact enqueueAndFinish_books hs hrun.nonempty (.of_ran hrun.ran fun _ _ => hsome)
              (fun _ h => by cases h)
      · cases h
        exact hfail e
    · cases h
      exact hfail e
  | output encoded =>
    cases h
    unfold completeCallback
    split
    · exact hreject
    · split
      · exact hreject
      · exact enqueueAndFinish_books hs hrun.nonempty (hbuilt (by simp)) (fun _ h => by cases h)
  | willCompleteAsync own =>
    unfold finishCallback at h
    dsimp only at h
    split at h
    · cases h
      unfold handOff
      dsimp only
      split
      · exact hreject
      · split
        · exact hreject
        · rename_i handle hhandle
          refine enqueueAndFinish_books hs hrun.nonempty (hbuilt (by simp)) ?_
          rintro _ ⟨⟩
          cases own with
          | false => cases hhandle
          | true =>
            cases hhandle
            rfl
    · cases h

/-! ### Drains -/

/-- All deferred starts in hand get a completion, as long as completions can be
encoded for them. -/
theorem retireAll_books {work : List DeferredWork} (hs : Books enc eligible s (startTokens rest))
    (hgood : ∀ u ∈ startTokens rest, Good enc u)
    (hcancels : ∀ u ∈ startTokens rest, cancelsFor u work = deliveredCancels u s.trace)
    (hnew : ∀ u ∈ startTokens rest, ∀ e ∈ s.trace, ¬ e.Touches u) :
    Books enc eligible (retireAll enc work rest s).1 [] ∧
      (retireAll enc work rest s).2 = .ok () := by
  induction rest generalizing s with
  | nil => exact ⟨hs, rfl⟩
  | cons w rest ih =>
    match w with
    | .pollError e => exact ih hs hgood hcancels hnew
    | .task ⟨u, .cancel c⟩ => exact ih hs hgood hcancels hnew
    | .task ⟨t, .start start⟩ =>
      have hbuilt : BuiltOk enc s.trace t (retiredCompletion work t start).1 := by
        have hc := hcancels t List.mem_cons_self
        unfold retiredCompletion
        split
        · rename_i c hfirst
          exact .of_cancelled (hc ▸ hfirst)
        · rename_i hfirst
          exact .of_untouched (hnew t List.mem_cons_self)
            (hc ▸ List.head?_eq_none_iff.mp hfirst)
      have hpending : ∀ handle, (retiredCompletion work t start).2 = .asyncHandoff handle →
          handle.lifecycle = .handoffPending := by
        intro handle h
        unfold retiredCompletion at h
        split at h
        · exact absurd h (cancelledCompletion_completed _ handle)
        · split at h <;> cases h
      have hgoodt := hgood t List.mem_cons_self
      have ⟨hbooks, _, hok⟩ :=
        admitCompletion_books hs hgoodt.1 hbuilt hpending (some start.activityType)
      obtain ⟨lease, hlease⟩ := hok hgoodt
      have htrace := admitCompletion_trace enc s t (some start.activityType)
        (retiredCompletion work t start).1 (retiredCompletion work t start).2
      have honce : t ∉ startTokens rest := by
        have hone := hs.counted.places_le_one t
        simp only [places, startTokens_start, List.count_cons_self] at hone
        exact List.count_eq_zero.mp (by omega)
      simp only [retireAll]
      revert hbooks hlease htrace
      generalize s.admitCompletion enc t (some start.activityType)
        (retiredCompletion work t start).1
        (retiredCompletion work t start).2 = r
      obtain ⟨s', r⟩ := r
      rintro hbooks rfl htrace
      refine ih hbooks ?_ ?_ ?_
      · exact fun u hu => hgood u (List.mem_cons_of_mem _ hu)
      · intro u hu
        rw [hcancels u (List.mem_cons_of_mem _ hu), htrace]
        simp [Event.cancel?]
      · intro u hu e he
        rw [htrace] at he
        rcases List.mem_append.mp he with he | he
        · exact hnew u (List.mem_cons_of_mem _ hu) e he
        · rw [List.mem_singleton.mp he]
          rintro rfl
          exact honce hu

theorem retireDeferred_books (hs : Books enc eligible s [])
    (hgood : ∀ u ∈ startTokens s.deferred, Good enc u) :
    Books enc eligible (s.retireDeferred enc).1 [] ∧ (s.retireDeferred enc).2 = .ok () := by
  have hall := hs.takeAll
  rw [List.append_nil] at hall
  refine retireAll_books hall hgood ?_ ?_
  · exact fun u hu => hs.queued.cancels u hu
  · exact fun u hu e he htouch => (hs.queued.touched u e he htouch).2 hu

/-! ### All steps -/

/-- What the supervisor may deliver in a step, and whether it may drain or discard. -/
def Contract (eligible : Bytes → Prop) (drains : Prop) (s : Adapter) : AdapterLabel → Prop
  | .poll (.ready task) _ _ | .sweepTask task => Lawful eligible s.trace task
  | .drain | .drainNext _ | .discard => drains
  | _ => True

instance [DecidablePred eligible] {drains : Prop} [Decidable drains] {l : AdapterLabel} :
    Decidable (Contract eligible drains s l) :=
  match l with
  | .poll (.ready _) _ _ | .sweepTask _ => inferInstanceAs (Decidable (Lawful ..))
  | .drain | .drainNext _ | .discard => inferInstanceAs (Decidable drains)
  | .poll .notReady _ _ | .poll (.failed _) _ _ | .sweepError _ | .callbackEnds _ _
  | .asyncEnds _ => inferInstanceAs (Decidable True)

/-- The step lemma, one case per label. Drains and discards are steps like the others where the
contract lets them happen. -/
theorem step_kept {l : AdapterLabel} {s' : Adapter} {drains : Prop} (hs : LaneKept enc eligible s)
    (hok : Contract eligible drains s l) (hdrains : drains → ∀ t, eligible t → Good enc t)
    (h : s.step enc definitions l = some s') : LaneKept enc eligible s' := by
  have hidle : ∀ {returned}, s.lane = .idle returned → Books enc eligible s [] := fun hlane => by
    simpa [hlane, LaneState.hand] using hs.books
  cases l with
  | poll polled decoded answer =>
    simp only [step] at h
    split at h
    · rename_i hlane
      cases h
      refine poll_kept (hidle hlane) ?_
      rintro task rfl
      exact hok
    · cases h
  | sweepTask task =>
    simp only [step] at h
    split at h
    · rename_i r hlane
      split at h
      · cases h
      · cases h
        exact routeSweptTask_kept hs hlane hok
    · cases h
  | sweepError e =>
    simp only [step] at h
    split at h
    · rename_i r hlane
      split at h
      · cases h
      · cases h
        exact ⟨hs.books.deferPollError e, fun r hr => { hs.running r hr with }⟩
    · cases h
  | callbackEnds outcome answer =>
    simp only [step] at h
    split at h
    · rename_i r hlane
      obtain ⟨result, hresult, rfl⟩ := Option.map_eq_some_iff.mp h
      have hbooks : Books enc eligible { s with lane := .idle none } [r.token] := by
        simpa [hlane, LaneState.hand] using hs.books.lane (.idle none)
      exact kept_ret (finishCallback_books hbooks { hs.running r hlane with } hresult)
    · cases h
  | drain =>
    simp only [step] at h
    split at h
    · rename_i hlane
      have hbooks := hidle hlane
      have hgood : ∀ u ∈ startTokens s.deferred, Good enc u := fun u hu =>
        hdrains hok u (hbooks.eligible_of_delivered (hbooks.counted.of_deferred hu))
      obtain ⟨hretired, hret⟩ := retireDeferred_books hbooks hgood
      split at h
      · rename_i s₁ heq
        cases h
        rw [heq] at hretired
        exact ⟨hretired.lane _, fun _ h => by cases h⟩
      · rename_i heq
        rw [heq] at hret
        cases hret
    · cases h
  | drainNext answer =>
    simp only [step] at h
    split at h
    · rename_i hlane
      have hbooks : Books enc eligible s [] := by simpa [hlane, LaneState.hand] using hs.books
      split at h
      · rename_i lease rest hleases
        have hmem : lease ∈ s.leases := by simp [hleases]
        have hfinish := finishLease_books hbooks hmem answer
        have hlane' := s.finishLease_lane lease answer
        split at h
        · rename_i heq
          cases h
          rw [heq] at hfinish hlane'
          simp only [hlane] at hlane'
          exact ⟨by simpa [hlane', LaneState.hand] using hfinish,
            fun r hr => by rw [hlane'] at hr; cases hr⟩
        · rename_i heq
          cases h
          rw [heq] at hfinish
          exact kept_idle hfinish
      · split at h <;> cases h <;> exact kept_idle hbooks
    · cases h
  | asyncEnds token =>
    simp only [step] at h
    split at h
    · cases h
      exact ⟨hs.books.endAsync, fun r hr => (hs.running r hr).note rfl (by simp) _ _⟩
    · cases h
  | discard =>
    simp only [step] at h
    split at h
    · rename_i hlane
      cases h
      refine ⟨?_, fun r hr => ?_⟩
      · simpa [note, hlane, LaneState.hand] using (hidle hlane).discard
      · simp [note, hlane] at hr
    · cases h

theorem empty_kept : LaneKept enc eligible .empty := by
  refine ⟨⟨⟨?_, ?_, ?_⟩, ⟨?_, ?_, ?_, ?_, ?_⟩, ⟨?_, ?_, ?_, ?_, ?_, ?_⟩, Justified.nil⟩, ?_⟩ <;>
    simp [empty, deliveredStarts, acceptedTokens, discardedTokens, deliveredCancels, places,
      leaseTokens, LaneState.hand]

/-- In every run that the contract allows the books stay balanced. -/
theorem reachable_kept {drains : Prop} (hdrains : drains → ∀ t, eligible t → Good enc t)
    (hs : (adapterSystem enc definitions).ReachableIf (Contract eligible drains) s) :
    LaneKept enc eligible s := by
  refine hs.invariant ?_ ?_
  · rintro _ rfl
    exact empty_kept
  · exact fun l s s' _ hkept hok h => step_kept hkept hok hdrains h

/-- The poll that takes a cancelled start from the queue submits its cancellation. -/
theorem poll_cancelled {first : ActivityCancel} (hs : Books enc eligible s [])
    (hleases : s.leases = []) (hhead : s.deferred = .task ⟨t, .start start⟩ :: rest)
    (hfirst : (deliveredCancels t s.trace).head? = some first) (hgood : Good enc t)
    (definitions : List (Bytes × Definition)) (polled : Polled)
    (decoded : Except DecodeFailure Unit) (answer : Answer) :
    ∃ encoded, enc.encode ⟨t, (cancelledCompletion first).1⟩ = .ok encoded ∧
      (s.poll enc definitions polled decoded answer).trace =
        s.trace ++ [.built t (cancelledCompletion first).1, .submitted t encoded false answer] := by
  obtain ⟨encoded, hencode⟩ := enc.encodes_cancelled hgood.2 first
  have hcancels := (hs.take hhead).2.1
  rw [← hcancels] at hfirst
  have hreplace :
    encodeOrReplace enc t (cancelledCompletion first).1 (cancelledCompletion first).2 =
      .ok (encoded, (cancelledCompletion first).2) := by simp only [encodeOrReplace, hencode]
  refine ⟨encoded, hencode, ?_⟩
  simp only [poll, hleases, hhead, processTask, if_neg hgood.1, takeDeferredCancel, hfirst,
    processCancel, enqueueAndFinish, admitCompletion, hreplace, note, List.map_nil,
    List.not_mem_nil, if_false, ret, finishLease, insertLease]
  rw [submitLease_trace (cancelledCompletion_completed first), List.append_assoc]
  rfl

end Adapter

/-! ## What runs of the activity lane keep -/

section Runs

variable {enc : CompletionEncoder} {definitions : List (Bytes × Definition)} {s : Adapter}

/-- **No start token is lost and none is completed twice.** In every run of polls,
sweeps, callbacks, drains and discards, of start tokens that completions can be
encoded for:

* a delivered start that is neither accepted nor discarded is in exactly one of the
  deferred queue, the retained completions and the hands of the running callback;
* an accepted one is in none of them, and after a handoff it is an async lease until
  that ends;
* no token is accepted twice;
* a completion is submitted again only with the same bytes and after failures that
  were retryable. -/
theorem outstanding_token_in_one_place
    (hs : (adapterSystem enc definitions).ReachableIf (Adapter.Contract (Good enc) True) s) :
    (∀ t ∈ deliveredStarts s.trace, t ∉ acceptedTokens s.trace → t ∉ discardedTokens s.trace →
      (Adapter.startTokens s.deferred).count t + s.leaseTokens.count t + s.lane.hand.count t = 1) ∧
    (∀ t ∈ acceptedTokens s.trace,
      t ∉ Adapter.startTokens s.deferred ∧ t ∉ s.leaseTokens ∧ t ∉ s.lane.hand) ∧
    (∀ t encoded before after, s.trace = before ++ .submitted t encoded true .accepted :: after →
      t ∈ s.asyncLeases ∨ ∃ e ∈ after, e.Ends t) ∧
    (acceptedTokens s.trace).Nodup ∧
    (∀ t encoded handoff answer before after,
      s.trace = before ++ .submitted t encoded handoff answer :: after →
        ∀ encoded' handoff' answer', .submitted t encoded' handoff' answer' ∈ before →
          encoded' = encoded ∧ answer'.isRetryable = true) := by
  have hbooks := (Adapter.reachable_kept (fun _ _ h => h) hs).books
  refine ⟨?_, ?_, hbooks.retained.handoffs, hbooks.counted.accepted_nodup, ?_⟩
  · intro t ht ha hd
    have hone := List.count_eq_one_of_mem hbooks.counted.distinct ht
    have hheld := hbooks.counted.held t
    have hkept := hbooks.counted.kept t (hbooks.eligible_of_delivered ht)
    simp only [Adapter.places, List.count_eq_zero.mpr ha, List.count_eq_zero.mpr hd] at hheld hkept
    omega
  · exact fun t ht => hbooks.counted.of_accepted ht
  · intro t encoded handoff answer before after htrace
    exact (hbooks.allowed before _ after htrace).2.2

def tokenEncoder : CompletionEncoder where
  encode completion := .ok completion.taskToken
  acceptsToken _ := true
  token_of_ok _ := rfl
  encodes_failure _ h := by cases h
  encodes_cancelled _ _ := ⟨_, rfl⟩

def oneActivity : List (Bytes × Definition) := [(text "greet", ⟨false, true⟩)]

def greet (token : Bytes) : ActivityTask := ⟨token, .start ⟨text "greet", false⟩⟩

def cancelOf (token : Bytes) : ActivityTask := ⟨token, .cancel ⟨.requested, none⟩⟩

/-- The first completion is lost and retried; a start swept meanwhile is drained. -/
def drainedSchedule : List AdapterLabel :=
  [.poll (.ready (greet [1])) (.ok ()) .accepted,
    .sweepTask (greet [2]),
    .callbackEnds (.raised [] []) (.raised true []),
    .poll .notReady (.ok ()) .accepted,
    .drain,
    .drainNext (.rejected false [] [])]

def drained : Adapter :=
  ((adapterSystem tokenEncoder oneActivity).replayIf
    (Adapter.Contract (Good tokenEncoder) True) drainedSchedule .empty).get (by rfl)

theorem outstanding_token_in_one_place_drained :
    deliveredStarts drained.trace = [[1], [2]] ∧ acceptedTokens drained.trace = [[1]] ∧
      drained.leaseTokens = [[2]] ∧ (acceptedTokens drained.trace).Nodup :=
  ⟨by rfl, by rfl, by rfl, (outstanding_token_in_one_place
    ((Lib.Transitions.ReachableIf.start (T := adapterSystem tokenEncoder oneActivity) rfl).replay
      (Option.some_get _).symm)).2.2.2.1⟩

/-- The starts are distinct and can be completed, and cancellations are arbitrary. -/
def StartsDistinct (enc : CompletionEncoder) (s : Adapter) : AdapterLabel → Prop
  | .poll (.ready ⟨t, .start _⟩) _ _ | .sweepTask ⟨t, .start _⟩ =>
    t ∉ deliveredStarts s.trace ∧ Good enc t
  | _ => True

/-- Without a condition on cancellations a token can be accepted twice: the
cancellation of an attempt that was completed before is polled and completed. -/
theorem late_cancellation_accepted_twice :
    ∃ s, (adapterSystem tokenEncoder oneActivity).ReachableIf (StartsDistinct tokenEncoder) s ∧
      acceptedTokens s.trace = [[1], [1]] :=
  ⟨_, .step (.poll (.ready (cancelOf [1])) (.ok ()) .accepted)
    (.step (.callbackEnds (.raised [] []) .accepted)
      (.step (.poll (.ready (greet [1])) (.ok ()) .accepted) (.start rfl)
        ⟨List.not_mem_nil, by decide⟩ rfl)
      trivial rfl) trivial rfl, by rfl⟩

/-- **A cancellation has one outcome.** In every run of polls, sweeps and callbacks:

* no token is accepted twice;
* a callback sees at most one cancellation, the first one delivered;
* a start that is cancelled before it is dispatched never runs its callback, and
  what is submitted for it is the cancellation that was delivered first;
* the poll that takes it from the queue submits that completion, if one can be
  encoded for its token;
* a callback is reported as cancelled only if a cancellation was delivered. -/
theorem cancellation_has_one_outcome
    (hs : (adapterSystem enc definitions).ReachableIf
      (Adapter.Contract (fun _ => True) False) s) :
    (acceptedTokens s.trace).Nodup ∧
    (∀ t c before after, s.trace = before ++ .observed t c :: after →
      (∀ c', .observed t c' ∉ before) ∧ (deliveredCancels t before).head? = some c) ∧
    (∀ t c before after, s.trace = before ++ .delivered ⟨t, .cancel c⟩ :: after →
      (∀ e ∈ before, ¬ e.Touches t) →
        .ran t ∉ s.trace ∧
        ∃ first, (deliveredCancels t s.trace).head? = some first ∧
          ∀ encoded handoff answer, .submitted t encoded handoff answer ∈ s.trace →
            enc.encode ⟨t, (cancelledCompletion first).1⟩ = .ok encoded) ∧
    (∀ t start rest first returned, s.lane = .idle returned → s.leases = [] →
      s.deferred = .task ⟨t, .start start⟩ :: rest →
      (deliveredCancels t s.trace).head? = some first → Good enc t →
        ∀ polled decoded answer, ∃ s' encoded,
          s.step enc definitions (.poll polled decoded answer) = some s' ∧
          enc.encode ⟨t, (cancelledCompletion first).1⟩ = .ok encoded ∧
          s'.trace = s.trace ++
            [.built t (cancelledCompletion first).1, .submitted t encoded false answer]) ∧
    (∀ t failure before after, s.trace = before ++ .built t (.cancelled failure) :: after →
      .ran t ∈ before → deliveredCancels t before ≠ []) := by
  have hkept := Adapter.reachable_kept (fun h => h.elim) hs
  have hbooks := hkept.books
  refine ⟨hbooks.counted.accepted_nodup, ?_, ?_, ?_, ?_⟩
  · exact fun t c before after htrace => hbooks.allowed before _ after htrace
  · intro t c before after htrace hnew
    exact cancelled_first hbooks.allowed htrace hnew
  · intro t start rest first returned hlane hleases hhead hfirst hgood polled decoded answer
    obtain ⟨encoded, hencode, htrace⟩ := Adapter.poll_cancelled
      (by simpa [hlane, LaneState.hand] using hbooks) hleases hhead hfirst hgood definitions polled
      decoded answer
    exact ⟨_, encoded, by simp only [Adapter.step, hlane], hencode, htrace⟩
  · intro t failure before after htrace hran
    exact (hbooks.allowed before _ after htrace).1 hran failure rfl

/-- One attempt observes its cancellation, which is repeated, and reports it; the
other is cancelled before it is dispatched. -/
def cancelledSchedule : List AdapterLabel :=
  [.poll (.ready (greet [1])) (.ok ()) .accepted,
    .sweepTask (greet [2]),
    .sweepTask (cancelOf [2]),
    .sweepTask (cancelOf [1]),
    .sweepTask (cancelOf [1]),
    .callbackEnds (.failed ⟨.cancelled, [], false, [], none⟩) .accepted,
    .poll .notReady (.ok ()) .accepted]

def cancelledBoth : Adapter :=
  ((adapterSystem tokenEncoder oneActivity).replayIf
    (Adapter.Contract (fun _ => True) False) cancelledSchedule .empty).get (by rfl)

theorem cancellation_has_one_outcome_both :
    acceptedTokens cancelledBoth.trace = [[1], [2]] ∧
      deliveredCancels [1] cancelledBoth.trace = [⟨.requested, none⟩, ⟨.requested, none⟩] ∧
      (acceptedTokens cancelledBoth.trace).Nodup :=
  ⟨by rfl, by rfl, (cancellation_has_one_outcome
    ((Lib.Transitions.ReachableIf.start (T := adapterSystem tokenEncoder oneActivity) rfl).replay
      (Option.some_get _).symm)).1⟩

def emptyTokenSchedule : List AdapterLabel :=
  [.poll (.ready (greet [1])) (.ok ()) .accepted,
    .sweepTask (greet []),
    .sweepTask (cancelOf []),
    .callbackEnds (.raised [] []) .accepted,
    .poll .notReady (.ok ()) .accepted]

/-- A start with an empty token is cancelled in the queue, and the poll that takes it
out reports an error and completes nothing. -/
theorem empty_token_not_completed :
    ∃ s, (adapterSystem tokenEncoder oneActivity).ReachableIf
        (Adapter.Contract (fun _ => True) False) s ∧
      deliveredStarts s.trace = [[1], []] ∧ deliveredCancels [] s.trace = [⟨.requested, none⟩] ∧
      Adapter.startTokens s.deferred = [] ∧ s.leaseTokens = [] ∧ s.lane.hand = [] ∧
      acceptedTokens s.trace = [[1]] :=
  ⟨((adapterSystem tokenEncoder oneActivity).replayIf
      (Adapter.Contract (fun _ => True) False) emptyTokenSchedule .empty).get (by rfl),
    (Lib.Transitions.ReachableIf.start rfl).replay (Option.some_get _).symm,
    by rfl, by rfl, by rfl, by rfl, by rfl, by rfl⟩

end Runs

end OcamlTemporal.Activity
