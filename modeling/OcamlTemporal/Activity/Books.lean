import Mathlib.Data.List.Nodup
import OcamlTemporal.Activity.Adapter
import OcamlTemporal.Lib.History

/-!
# OcamlTemporal.Activity.Books

**Books over the start tokens of the activity lane.** A delivered start token is in
one of five places: the deferred queue, the retained completions, the hands of the
lane, and, in the trace, the accepted and the discarded tokens (`Adapter.places`).
The functions of the adapter only move tokens between places, and one lemma for
each of the moves says that the books stay balanced (**`Books`**):

* `Counted` counts the places, `Queued` ties the deferred queue to the deliveries,
  `Retained` ties the retained completions to the submissions. Each has one lemma for a
  recorded event and `Queued` one for a queue that gets shorter, and the moves are cases
  of these;
* `Allowed` is what may follow what in a trace. Deliveries are the supervisor's
  part: `Lawful` says that a start token is delivered once, and a cancellation only
  while its start is outstanding. The rest is the adapter's part: a completion is
  submitted again only after retryable failures and with the same bytes, a callback
  runs only if no cancellation was delivered before, it sees the first one, and a
  cancellation is reported only if there was one.
-/

namespace OcamlTemporal.Activity

open OcamlTemporal.Protocol
open OcamlTemporal.Lib (Justified filterMap_snoc split_snoc)

/-! ## Reading a trace

The functions of the adapter record what they do. The books are kept over the record, so that they
can speak about tokens which the adapter no longer knows. -/

namespace Event

def start? : Event → Option Bytes
  | delivered ⟨t, .start _⟩ => some t
  | _ => none

def accepted? : Event → Option Bytes
  | submitted t _ _ .accepted => some t
  | _ => none

def cancel? (t : Bytes) : Event → Option ActivityCancel
  | delivered ⟨t', .cancel c⟩ => if t' = t then some c else none
  | _ => none

/-- The start tokens that were released by `discard`. -/
def gone : Event → List Bytes
  | discarded tokens _ => tokens
  | _ => []

/-- The event is about the execution of the token's attempt. -/
def Touches (t : Bytes) : Event → Prop
  | ran t' | observed t' _ | built t' _ | submitted t' _ _ _ => t' = t
  | _ => False

/-- The event ends the async lease of the token. -/
def Ends (t : Bytes) : Event → Prop
  | asyncEnded t' => t' = t
  | discarded _ tokens => t ∈ tokens
  | _ => False

end Event

def deliveredStarts (trace : List Event) : List Bytes := trace.filterMap Event.start?

def acceptedTokens (trace : List Event) : List Bytes := trace.filterMap Event.accepted?

def deliveredCancels (t : Bytes) (trace : List Event) : List ActivityCancel :=
  trace.filterMap (Event.cancel? t)

def discardedTokens (trace : List Event) : List Bytes := trace.flatMap Event.gone

section Snoc

variable (trace : List Event) (e : Event) (t : Bytes)

@[simp] theorem deliveredStarts_snoc :
    deliveredStarts (trace ++ [e]) = deliveredStarts trace ++ e.start?.toList := filterMap_snoc ..

@[simp] theorem acceptedTokens_snoc :
    acceptedTokens (trace ++ [e]) = acceptedTokens trace ++ e.accepted?.toList := filterMap_snoc ..

@[simp] theorem deliveredCancels_snoc :
    deliveredCancels t (trace ++ [e]) = deliveredCancels t trace ++ (e.cancel? t).toList :=
  filterMap_snoc ..

@[simp] theorem discardedTokens_snoc :
    discardedTokens (trace ++ [e]) = discardedTokens trace ++ e.gone := by simp [discardedTokens]

end Snoc

theorem mem_deliveredCancels {t : Bytes} {c : ActivityCancel} {trace : List Event} :
    c ∈ deliveredCancels t trace ↔ .delivered ⟨t, .cancel c⟩ ∈ trace := by
  constructor
  · intro h
    obtain ⟨e, he, heq⟩ := List.mem_filterMap.mp h
    match e with
    | .delivered ⟨t', .cancel c'⟩ =>
      simp only [Event.cancel?] at heq
      split at heq <;> cases heq
      rename_i ht
      exact ht ▸ he
  · exact fun h => List.mem_filterMap.mpr ⟨_, h, if_pos rfl⟩

/-! ## The contract of the supervisor

Deliveries are not the adapter's to restrict. What the supervisor is assumed to deliver is part of
`Allowed`, next to what the adapter has to guarantee for its own events. -/

/-- A token that the adapter can complete a task with. -/
def Good (enc : CompletionEncoder) (t : Bytes) : Prop := t.length ≠ 0 ∧ enc.acceptsToken t = true

/-- A start token is delivered once and is eligible, and a cancellation is delivered
after the start and before a completion was accepted or the start discarded. -/
def Lawful (eligible : Bytes → Prop) (trace : List Event) (task : ActivityTask) : Prop :=
  match task.variant with
  | .start _ => task.taskToken ∉ deliveredStarts trace ∧ eligible task.taskToken
  | .cancel _ =>
    task.taskToken ∈ deliveredStarts trace ∧ task.taskToken ∉ acceptedTokens trace ∧
      task.taskToken ∉ discardedTokens trace

instance {enc : CompletionEncoder} : DecidablePred (Good enc) := fun _ =>
  inferInstanceAs (Decidable (_ ∧ _))

instance {eligible : Bytes → Prop} [DecidablePred eligible] {trace : List Event}
    {task : ActivityTask} : Decidable (Lawful eligible trace task) :=
  match task with
  | ⟨_, .start _⟩ => inferInstanceAs (Decidable (_ ∧ _))
  | ⟨_, .cancel _⟩ => inferInstanceAs (Decidable (_ ∧ _ ∧ _))

/-- The reported result of an attempt. If the callback ran, a cancellation is
reported only if one was delivered; if it did not, the first cancellation that was
delivered decides. -/
def BuiltOk (enc : CompletionEncoder) (before : List Event) (t : Bytes)
    (result : CompletionResult) :
    Prop :=
  (Event.ran t ∈ before → ∀ failure, result = .cancelled failure → deliveredCancels t before ≠ []) ∧
  (Good enc t → Event.ran t ∉ before → ∀ c, (deliveredCancels t before).head? = some c →
    result = (cancelledCompletion c).1)

/-- The bytes are what the encoder made of a result that was built for the token. -/
def Encoded (enc : CompletionEncoder) (trace : List Event) (t encoded : Bytes) : Prop :=
  ∃ result accepted accepted', Event.built t result ∈ trace ∧
    Adapter.encodeOrReplace enc t result accepted = .ok (encoded, accepted')

/-- What may follow what in a trace, event by event: for deliveries the contract of the supervisor,
for everything else what the adapter promises about it. -/
def Allowed (enc : CompletionEncoder) (eligible : Bytes → Prop) (before : List Event) :
    Event → Prop
  | .delivered task => Lawful eligible before task
  | .submitted t encoded _ _ => Good enc t ∧ Encoded enc before t encoded ∧
      ∀ encoded' handoff answer, Event.submitted t encoded' handoff answer ∈ before →
        encoded' = encoded ∧ answer.isRetryable = true
  | .ran t => Event.ran t ∉ before ∧ deliveredCancels t before = []
  | .observed t c =>
      (∀ c', Event.observed t c' ∉ before) ∧ (deliveredCancels t before).head? = some c
  | .built t result => BuiltOk enc before t result
  | _ => True

/-! ## The deferred queue -/

namespace Adapter

variable {enc : CompletionEncoder} {t t' : Bytes} {work rest : List DeferredWork}

@[simp] theorem startTokens_nil : startTokens [] = [] := rfl

@[simp] theorem startTokens_start (st : ActivityStart) :
    startTokens (.task ⟨t, .start st⟩ :: rest) = t :: startTokens rest := rfl

@[simp] theorem startTokens_cancel (c : ActivityCancel) :
    startTokens (.task ⟨t, .cancel c⟩ :: rest) = startTokens rest := rfl

@[simp] theorem startTokens_pollError (e : ErrorView) :
    startTokens (.pollError e :: rest) = startTokens rest := rfl

@[simp] theorem startTokens_append (work work' : List DeferredWork) :
    startTokens (work ++ work') = startTokens work ++ startTokens work' :=
  List.filterMap_append

@[simp] theorem cancelsFor_nil : cancelsFor t [] = [] := rfl

@[simp] theorem cancelsFor_start (st : ActivityStart) :
    cancelsFor t (.task ⟨t', .start st⟩ :: rest) = cancelsFor t rest := rfl

@[simp] theorem cancelsFor_pollError (e : ErrorView) :
    cancelsFor t (.pollError e :: rest) = cancelsFor t rest := rfl

theorem cancelsFor_cancel (c : ActivityCancel) :
    cancelsFor t (.task ⟨t', .cancel c⟩ :: rest) =
      if t' = t then c :: cancelsFor t rest else cancelsFor t rest := by
  by_cases h : t' = t <;> simp [cancelsFor, h]

@[simp] theorem cancelsFor_append (work work' : List DeferredWork) :
    cancelsFor t (work ++ work') = cancelsFor t work ++ cancelsFor t work' :=
  List.filterMap_append

theorem mem_startTokens : t ∈ startTokens work ↔ ∃ st, .task ⟨t, .start st⟩ ∈ work := by
  constructor
  · intro h
    obtain ⟨w, hw, heq⟩ := List.mem_filterMap.mp h
    match w with
    | .task ⟨u, .start st⟩ =>
      cases heq
      exact ⟨st, hw⟩
  · intro ⟨st, h⟩
    exact List.mem_filterMap.mpr ⟨_, h, rfl⟩

theorem mem_cancelsFor {c : ActivityCancel} (h : c ∈ cancelsFor t work) :
    .task ⟨t, .cancel c⟩ ∈ work := by
  obtain ⟨w, hw, heq⟩ := List.mem_filterMap.mp h
  match w with
  | .task ⟨u, .cancel c'⟩ =>
    simp only at heq
    split at heq <;> cases heq
    rename_i hu
    exact hu ▸ hw

def dropCancels (t : Bytes) (work : List DeferredWork) : List DeferredWork :=
  work.filter fun
    | .task ⟨t', .cancel _⟩ => t' ≠ t
    | _ => true

theorem startTokens_dropCancels (t : Bytes) (work : List DeferredWork) :
    startTokens (dropCancels t work) = startTokens work := by
  rw [startTokens, dropCancels, List.filterMap_filter]
  refine List.filterMap_congr fun w _ => ?_
  match w with
  | .pollError e => rfl
  | .task ⟨u, .start st⟩ => rfl
  | .task ⟨u, .cancel c⟩ => exact ite_self none

theorem cancelsFor_dropCancels_of_ne (h : t' ≠ t) (work : List DeferredWork) :
    cancelsFor t' (dropCancels t work) = cancelsFor t' work := by
  rw [cancelsFor, dropCancels, List.filterMap_filter]
  refine List.filterMap_congr fun w _ => ?_
  match w with
  | .pollError e => rfl
  | .task ⟨u, .start st⟩ => rfl
  | .task ⟨u, .cancel c⟩ =>
    by_cases hu : u = t
    · simp [hu, h.symm]
    · simp [hu]

theorem ne_of_mem_dropCancels {c : ActivityCancel}
    (h : .task ⟨t', .cancel c⟩ ∈ dropCancels t work) : t' ≠ t := by
  simpa using (List.mem_filter.mp h).2

/-- Work behind a cancellation is not the start that it cancels. -/
def Follows (w w' : DeferredWork) : Prop :=
  ∀ t c st, w = .task ⟨t, .cancel c⟩ → w' ≠ .task ⟨t, .start st⟩

/-! ## The books

The invariant in four parts. Three of them look at one store of the adapter each, so that a move
between two stores needs the lemmas of those two only. -/

def leaseTokens (s : Adapter) : List Bytes := s.leases.map Lease.token

/-- In how many places the start token is; `hand` are the tokens that the lane is
dealing with. -/
def places (s : Adapter) (hand : List Bytes) (t : Bytes) : Nat :=
  (startTokens s.deferred).count t + s.leaseTokens.count t + (acceptedTokens s.trace).count t +
    (discardedTokens s.trace).count t + hand.count t

end Adapter

open Adapter (startTokens cancelsFor dropCancels places leaseTokens insertLease removeLease)

/-- A delivered start token is in at most one place, and if it can be completed, it is
in one. -/
structure Counted (enc : CompletionEncoder) (s : Adapter) (hand : List Bytes) : Prop where
  distinct : (deliveredStarts s.trace).Nodup
  held : ∀ t, s.places hand t ≤ (deliveredStarts s.trace).count t
  kept : ∀ t, Good enc t → (deliveredStarts s.trace).count t ≤ s.places hand t

/-- The deferred queue agrees with the deliveries, and nothing has happened yet to the
starts in it. A cancellation comes after its start, unless the start was one that no
completion can be encoded for and is gone. -/
structure Queued (enc : CompletionEncoder) (deferred : List DeferredWork) (trace : List Event) :
    Prop where
  ordered : deferred.Pairwise Adapter.Follows
  known : ∀ task, .task task ∈ deferred → .delivered task ∈ trace
  owned : ∀ t c, .task ⟨t, .cancel c⟩ ∈ deferred → t ∈ startTokens deferred ∨ ¬ Good enc t
  cancels : ∀ t ∈ startTokens deferred, cancelsFor t deferred = deliveredCancels t trace
  touched : ∀ t e, e ∈ trace → e.Touches t →
    t ∈ deliveredStarts trace ∧ t ∉ startTokens deferred

/-- The retained completions agree with the submissions. -/
structure Retained (enc : CompletionEncoder) (leases : List Lease) (asyncLeases : List Bytes)
    (trace : List Event) : Prop where
  submitted : ∀ t encoded handoff answer, .submitted t encoded handoff answer ∈ trace →
    t ∈ leases.map Lease.token ∨ t ∈ acceptedTokens trace ∨ t ∈ discardedTokens trace
  earlier : ∀ lease ∈ leases, ∀ encoded handoff answer,
    .submitted lease.token encoded handoff answer ∈ trace →
      encoded = lease.encoded ∧ (lease.retryRefusal = none → answer.isRetryable = true)
  recorded : ∀ lease ∈ leases, Good enc lease.token ∧ Encoded enc trace lease.token lease.encoded
  pending : ∀ lease ∈ leases, ∀ handle, lease.acceptedResult = .asyncHandoff handle →
    handle.lifecycle = .handoffPending
  async : ∀ t ∈ asyncLeases, t ∈ acceptedTokens trace
  handoffs : ∀ t encoded before after,
    trace = before ++ .submitted t encoded true .accepted :: after →
      t ∈ asyncLeases ∨ ∃ e ∈ after, e.Ends t

/-- The books of an adapter whose lane has the tokens `hand` in hand. The lane takes a token from
one store and gives it to another within one call, and in between it is counted here. -/
structure Books (enc : CompletionEncoder) (eligible : Bytes → Prop) (s : Adapter)
    (hand : List Bytes) : Prop where
  counted : Counted enc s hand
  queued : Queued enc s.deferred s.trace
  retained : Retained enc s.leases s.asyncLeases s.trace
  allowed : Justified (Allowed enc eligible) s.trace

/-! ### Counting

A token that is in one place cannot be in another: most of the lemmas of this part derive a
contradiction from two places, which add up to more than one delivery. -/

namespace Counted

variable {enc : CompletionEncoder} {s s' : Adapter} {hand hand' : List Bytes} {t : Bytes}

theorem places_le_one (hs : Counted enc s hand) (t : Bytes) : s.places hand t ≤ 1 :=
  Nat.le_trans (hs.held t) (List.nodup_iff_count_le_one.mp hs.distinct t)

theorem leases_nodup (hs : Counted enc s hand) : s.leaseTokens.Nodup := by
  refine List.nodup_iff_count_le_one.mpr fun t => ?_
  have := hs.places_le_one t
  simp only [places] at this
  omega

theorem accepted_nodup (hs : Counted enc s hand) : (acceptedTokens s.trace).Nodup := by
  refine List.nodup_iff_count_le_one.mpr fun t => ?_
  have := hs.places_le_one t
  simp only [places] at this
  omega

theorem lease_unique (hs : Counted enc s hand) {l l' : Lease} (hl : l ∈ s.leases)
    (hl' : l' ∈ s.leases) (heq : l.token = l'.token) : l = l' :=
  List.inj_on_of_nodup_map hs.leases_nodup hl hl' heq

theorem of_hand (hs : Counted enc s hand) (ht : t ∈ hand) :
    t ∈ deliveredStarts s.trace ∧ t ∉ startTokens s.deferred ∧ t ∉ s.leaseTokens ∧
      t ∉ acceptedTokens s.trace ∧ t ∉ discardedTokens s.trace := by
  have hone := hs.places_le_one t
  have hheld := hs.held t
  simp only [places, ← List.count_pos_iff] at hone hheld ht ⊢
  omega

theorem of_lease (hs : Counted enc s hand) (ht : t ∈ s.leaseTokens) :
    t ∈ deliveredStarts s.trace ∧ t ∉ startTokens s.deferred ∧ t ∉ acceptedTokens s.trace := by
  have hone := hs.places_le_one t
  have hheld := hs.held t
  simp only [places, ← List.count_pos_iff] at hone hheld ht ⊢
  omega

theorem of_deferred (hs : Counted enc s hand) (ht : t ∈ startTokens s.deferred) :
    t ∈ deliveredStarts s.trace := by
  have hheld := hs.held t
  simp only [places, ← List.count_pos_iff] at hheld ht ⊢
  omega

theorem of_accepted (hs : Counted enc s hand) (ht : t ∈ acceptedTokens s.trace) :
    t ∉ startTokens s.deferred ∧ t ∉ s.leaseTokens ∧ t ∉ hand := by
  have hone := hs.places_le_one t
  simp only [places, ← List.count_pos_iff] at hone ht ⊢
  omega

/-- An outstanding token that can be completed is deferred, retained or in hand. -/
theorem outstanding (hs : Counted enc s hand) (hgood : Good enc t)
    (ht : t ∈ deliveredStarts s.trace) (ha : t ∉ acceptedTokens s.trace)
    (hd : t ∉ discardedTokens s.trace) :
    t ∈ startTokens s.deferred ∨ t ∈ s.leaseTokens ∨ t ∈ hand := by
  have hkept := hs.kept t hgood
  simp only [places, ← List.count_pos_iff] at hkept ht ha hd ⊢
  omega

/-- Tokens that only change their places stay counted. -/
theorem move (hs : Counted enc s hand)
    (hstarts : deliveredStarts s'.trace = deliveredStarts s.trace)
    (hplaces : ∀ t, s'.places hand' t = s.places hand t) : Counted enc s' hand' where
  distinct := hstarts ▸ hs.distinct
  held t := by
    rw [hstarts, hplaces]
    exact hs.held t
  kept t hgood := by
    rw [hstarts, hplaces]
    exact hs.kept t hgood

theorem note {e : Event} (hs : Counted enc s hand) (hstart : e.start? = none)
    (htrace : s'.trace = s.trace ++ [e])
    (hplaces : ∀ t, (startTokens s'.deferred).count t + s'.leaseTokens.count t +
      e.accepted?.toList.count t + e.gone.count t + hand'.count t =
        (startTokens s.deferred).count t + s.leaseTokens.count t + hand.count t) :
    Counted enc s' hand' := by
  refine hs.move (by simp [htrace, hstart]) fun t => ?_
  have := hplaces t
  simp only [places, htrace, acceptedTokens_snoc, discardedTokens_snoc, List.count_append]
  omega

/-- A token that no completion can be encoded for may be lost. -/
theorem lose {deferred : List DeferredWork} (hs : Counted enc s hand) (hbad : ¬ Good enc t)
    (hplaces : ∀ u, s.places hand u = places { s with deferred } hand' u + [t].count u) :
    Counted enc { s with deferred } hand' := by
  refine ⟨hs.distinct, fun u => ?_, fun u hu => ?_⟩
  · have := hs.held u
    rw [hplaces] at this
    exact Nat.le_trans (Nat.le_add_right _ _) this
  · have hut : u ≠ t := fun heq => hbad (heq ▸ hu)
    have hnone : [t].count u = 0 := List.count_eq_zero.mpr (by simpa using hut)
    have := hs.kept u hu
    rw [hplaces, hnone] at this
    exact this

end Counted

/-! ### The queue

The queue only shrinks from its head, except that a start is taken out together with its
cancellations, wherever these are. -/

namespace Queued

variable {enc : CompletionEncoder} {deferred rest : List DeferredWork} {trace : List Event}
  {e : Event} {t : Bytes}

/-- Recording what happened to an attempt that is not in the queue. -/
theorem note (h : Queued enc deferred trace) (hstart : e.start? = none)
    (hcancel : ∀ t ∈ startTokens deferred, e.cancel? t = none)
    (htouch : ∀ t, e.Touches t → t ∈ deliveredStarts trace ∧ t ∉ startTokens deferred) :
    Queued enc deferred (trace ++ [e]) where
  ordered := h.ordered
  known task hmem := List.mem_append_left _ (h.known task hmem)
  owned := h.owned
  cancels t ht := by simp [h.cancels t ht, hcancel t ht]
  touched t e' he' ht := by
    rw [deliveredStarts_snoc, hstart, Option.toList_none, List.append_nil]
    rcases List.mem_append.mp he' with he' | he'
    · exact h.touched t e' he' ht
    · rw [List.mem_singleton.mp he'] at ht
      exact htouch t ht

theorem deferStart (h : Queued enc deferred trace) (st : ActivityStart)
    (hnew : t ∉ deliveredStarts trace) (hnone : deliveredCancels t trace = []) :
    Queued enc (deferred ++ [.task ⟨t, .start st⟩]) (trace ++ [.delivered ⟨t, .start st⟩]) := by
  have hfree : ∀ c, .task ⟨t, .cancel c⟩ ∉ deferred := fun c hc =>
    List.not_mem_nil (hnone ▸ mem_deliveredCancels.mpr (h.known _ hc))
  have hcancels : cancelsFor t deferred = [] :=
    List.eq_nil_iff_forall_not_mem.mpr fun c hc => hfree c (Adapter.mem_cancelsFor hc)
  constructor
  case ordered =>
    refine List.pairwise_append.mpr ⟨h.ordered, List.pairwise_singleton .., ?_⟩
    intro w hw w' hw' u c st' heq heq'
    rw [List.mem_singleton.mp hw'] at heq'
    cases heq'
    exact hfree c (heq ▸ hw)
  case known =>
    intro task htask
    have htask : .task task ∈ deferred ∨ task = ⟨t, .start st⟩ := by simpa using htask
    rcases htask with htask | rfl
    · exact List.mem_append_left _ (h.known task htask)
    · simp
  case owned =>
    intro u c hu
    exact (h.owned u c (by simpa using hu)).imp_left fun hmem => by simp [hmem]
  case cancels =>
    intro u hu
    have hu : u ∈ startTokens deferred ∨ u = t := by simpa using hu
    rcases hu with hu | rfl
    · simp [h.cancels u hu, Event.cancel?]
    · simp [hcancels, hnone, Event.cancel?]
  case touched =>
    intro u e he hu
    rcases List.mem_append.mp he with he | he
    · have ⟨hold, hout⟩ := h.touched u e he hu
      have hut : u ≠ t := fun heq => hnew (heq ▸ hold)
      simp [hold, hout, hut]
    · rw [List.mem_singleton.mp he] at hu
      cases hu

theorem deferCancel (h : Queued enc deferred trace) (c : ActivityCancel)
    (hplace : t ∈ startTokens deferred ∨ ¬ Good enc t) :
    Queued enc (deferred ++ [.task ⟨t, .cancel c⟩]) (trace ++ [.delivered ⟨t, .cancel c⟩]) := by
  have hstarts : startTokens (deferred ++ [.task ⟨t, .cancel c⟩]) = startTokens deferred := by simp
  constructor
  case ordered =>
    refine List.pairwise_append.mpr ⟨h.ordered, List.pairwise_singleton .., ?_⟩
    intro w hw w' hw' u c' st' heq heq'
    rw [List.mem_singleton.mp hw'] at heq'
    cases heq'
  case known =>
    intro task htask
    have htask : .task task ∈ deferred ∨ task = ⟨t, .cancel c⟩ := by simpa using htask
    rcases htask with htask | rfl
    · exact List.mem_append_left _ (h.known task htask)
    · simp
  case owned =>
    intro u c' hu
    rw [hstarts]
    rcases List.mem_append.mp hu with hu | hu
    · exact h.owned u c' hu
    · obtain ⟨rfl, -⟩ : u = t ∧ c' = c := by simpa using hu
      exact hplace
  case cancels =>
    intro u hu
    rw [hstarts] at hu
    rw [Adapter.cancelsFor_append, deliveredCancels_snoc, h.cancels u hu,
      Adapter.cancelsFor_cancel, Event.cancel?]
    split <;> rfl
  case touched =>
    intro u e he hu
    rw [hstarts]
    rcases List.mem_append.mp he with he | he
    · simpa [Event.start?] using h.touched u e he hu
    · rw [List.mem_singleton.mp he] at hu
      cases hu

theorem deferPollError (h : Queued enc deferred trace) (e : ErrorView) :
    Queued enc (deferred ++ [.pollError e]) trace where
  ordered := by
    refine List.pairwise_append.mpr ⟨h.ordered, List.pairwise_singleton .., ?_⟩
    intro w hw w' hw' u c st heq heq'
    rw [List.mem_singleton.mp hw'] at heq'
    cases heq'
  known task ht := h.known task (by simpa using ht)
  owned t c ht := by simpa using h.owned t c (by simpa using ht)
  cancels t ht := by simpa using h.cancels t (by simpa using ht)
  touched t e he ht := by simpa using h.touched t e he ht

/-- Work is taken out. The cancellations of a start that stays have to stay as well, and
a cancellation whose start is taken out goes with it, or nothing can be encoded for it. -/
theorem shrink (h : Queued enc deferred trace) (hsub : rest.Sublist deferred)
    (hcancels : ∀ t ∈ startTokens rest, cancelsFor t rest = cancelsFor t deferred)
    (howned : ∀ t c, .task ⟨t, .cancel c⟩ ∈ rest → t ∈ startTokens deferred →
      t ∈ startTokens rest ∨ ¬ Good enc t) : Queued enc rest trace where
  ordered := h.ordered.sublist hsub
  known task ht := h.known task (hsub.subset ht)
  owned t c ht := by
    rcases h.owned t c (hsub.subset ht) with hmem | hbad
    · exact howned t c ht hmem
    · exact .inr hbad
  cancels t ht := (hcancels t ht).trans (h.cancels t ((hsub.filterMap _).subset ht))
  touched t e he ht :=
    have ⟨hold, hout⟩ := h.touched t e he ht
    ⟨hold, fun hmem => hout ((hsub.filterMap _).subset hmem)⟩

/-- The start at the head is taken out with its cancellations. -/
theorem take {st : ActivityStart} (h : Queued enc (.task ⟨t, .start st⟩ :: rest) trace)
    (honce : t ∉ startTokens rest) : Queued enc (dropCancels t rest) trace := by
  refine h.shrink (List.filter_sublist.trans (List.sublist_cons_self ..)) ?_ ?_
  · intro u hu
    rw [Adapter.startTokens_dropCancels] at hu
    have hut : u ≠ t := fun heq => honce (heq ▸ hu)
    rw [Adapter.cancelsFor_dropCancels_of_ne hut, Adapter.cancelsFor_start]
  · intro u c hu hmem
    rw [Adapter.startTokens_dropCancels]
    exact .inl ((List.mem_cons.mp hmem).resolve_left (Adapter.ne_of_mem_dropCancels hu))

/-- The start at the head is dropped, and no completion can be encoded for it. -/
theorem dropStart {st : ActivityStart} (h : Queued enc (.task ⟨t, .start st⟩ :: rest) trace)
    (hbad : ¬ Good enc t) : Queued enc rest trace := by
  refine h.shrink (List.sublist_cons_self ..) (fun _ _ => rfl) fun u c _ hmem => ?_
  rcases List.mem_cons.mp hmem with rfl | hmem
  · exact .inr hbad
  · exact .inl hmem

theorem dropPollError {e : ErrorView} (h : Queued enc (.pollError e :: rest) trace) :
    Queued enc rest trace :=
  h.shrink (List.sublist_cons_self ..) (fun _ _ => rfl) fun _ _ _ hmem => .inl hmem

/-- A cancellation at the head has lost its start, which no completion could be
encoded for. -/
theorem dropCancel {c : ActivityCancel} (h : Queued enc (.task ⟨t, .cancel c⟩ :: rest) trace) :
    Queued enc rest trace ∧ ¬ Good enc t ∧ t ∉ startTokens rest := by
  have hout : t ∉ startTokens rest := by
    intro hmem
    obtain ⟨st, hst⟩ := Adapter.mem_startTokens.mp hmem
    exact (List.pairwise_cons.mp h.ordered).1 _ hst t c st rfl rfl
  refine ⟨?_, (h.owned t c List.mem_cons_self).resolve_left hout, hout⟩
  refine h.shrink (List.sublist_cons_self ..) (fun u hu => ?_) fun _ _ _ hmem => .inl hmem
  have hut : t ≠ u := fun heq => hout (heq ▸ hu)
  rw [Adapter.cancelsFor_cancel, if_neg hut]

theorem clear (h : Queued enc deferred trace) : Queued enc [] trace :=
  h.shrink (List.nil_sublist _) (fun _ ht => absurd ht List.not_mem_nil)
    fun _ _ ht => absurd ht List.not_mem_nil

end Queued

/-! ### The retained completions

A lease is the completion of a token with its encoded bytes. It stays until Core has accepted
exactly these bytes or the adapter is discarded. -/

theorem Encoded.mono {enc : CompletionEncoder} {trace : List Event} {t encoded : Bytes}
    (h : Encoded enc trace t encoded) (more : List Event) :
    Encoded enc (trace ++ more) t encoded := by
  obtain ⟨result, accepted, accepted', hbuilt, hbytes⟩ := h
  exact ⟨result, accepted, accepted', List.mem_append_left _ hbuilt, hbytes⟩

namespace Adapter

variable {lease l : Lease} {ls : List Lease} {t : Bytes}

theorem insertLease_perm (lease : Lease) (ls : List Lease) :
    (insertLease lease ls).Perm (lease :: ls) := by
  induction ls with
  | nil => exact .refl _
  | cons l ls ih =>
    rw [insertLease]
    split
    · exact .refl _
    · exact (ih.cons l).trans (.swap lease l ls)

theorem mem_insertLease : l ∈ insertLease lease ls ↔ l = lease ∨ l ∈ ls := by
  rw [(insertLease_perm lease ls).mem_iff, List.mem_cons]

theorem mem_removeLease : l ∈ removeLease t ls ↔ l ∈ ls ∧ l.token ≠ t := by
  simp [removeLease]

theorem count_removeLease (hmem : t ∈ ls.map Lease.token) (hnodup : (ls.map Lease.token).Nodup)
    (u : Bytes) :
    ((removeLease t ls).map Lease.token).count u + [t].count u = (ls.map Lease.token).count u := by
  have htokens : (removeLease t ls).map Lease.token = (ls.map Lease.token).filter (· ≠ t) := by
    rw [removeLease, List.filter_map]
    rfl
  rw [htokens]
  by_cases hu : u = t
  · subst hu
    rw [List.count_eq_zero.mpr (by simp), List.count_eq_one_of_mem hnodup hmem]
    simp
  · have hnone : [t].count u = 0 := List.count_eq_zero.mpr (by simpa using hu)
    rw [List.count_filter (by simpa using hu), hnone, Nat.add_zero]

end Adapter

namespace Retained

variable {enc : CompletionEncoder} {leases leases' : List Lease}
  {asyncLeases asyncLeases' : List Bytes}
  {trace : List Event} {e : Event} {t encoded : Bytes} {handoff : Bool} {answer : Answer}

/-- Recording an event. Leases may be refused, a lease goes only if the event accepts or
discards it, and an async lease only if the event ends it. -/
theorem snoc (h : Retained enc leases asyncLeases trace) (e : Event)
    (hfrom : ∀ l' ∈ leases',
      l' ∈ leases ∨ ∃ l ∈ leases, ∃ refusal, l' = { l with retryRefusal := some refusal })
    (hgoes : ∀ l ∈ leases, l.token ∈ leases'.map Lease.token ∨ l.token ∈ e.accepted?.toList ∨
      l.token ∈ e.gone)
    (hsubmitted : ∀ t encoded handoff answer, e = .submitted t encoded handoff answer →
      t ∈ leases.map Lease.token ∧ ∀ l' ∈ leases', l'.token = t →
        encoded = l'.encoded ∧ (l'.retryRefusal = none → answer.isRetryable = true))
    (hasync : ∀ t ∈ asyncLeases', t ∈ asyncLeases ∨ t ∈ e.accepted?.toList)
    (hends : ∀ t ∈ asyncLeases, t ∈ asyncLeases' ∨ e.Ends t)
    (hhandoff : ∀ t encoded, e = .submitted t encoded true .accepted → t ∈ asyncLeases') :
    Retained enc leases' asyncLeases' (trace ++ [e]) := by
  constructor
  case submitted =>
    intro t encoded handoff answer hmem
    have hplace : t ∈ leases.map Lease.token ∨ t ∈ acceptedTokens trace ∨
        t ∈ discardedTokens trace := by
      rcases List.mem_append.mp hmem with hmem | hmem
      · exact h.submitted t encoded handoff answer hmem
      · exact .inl (hsubmitted _ _ _ _ (List.mem_singleton.mp hmem).symm).1
    rw [acceptedTokens_snoc, discardedTokens_snoc]
    rcases hplace with ht | ht | ht
    · obtain ⟨l, hl, rfl⟩ := List.mem_map.mp ht
      exact (hgoes l hl).imp_right
        (Or.imp (List.mem_append_right _) (List.mem_append_right _))
    · exact .inr (.inl (List.mem_append_left _ ht))
    · exact .inr (.inr (List.mem_append_left _ ht))
  case earlier =>
    intro l' hl' encoded handoff answer hmem
    rcases List.mem_append.mp hmem with hmem | hmem
    · rcases hfrom l' hl' with hl | ⟨l, hl, refusal, rfl⟩
      · exact h.earlier l' hl encoded handoff answer hmem
      · exact ⟨(h.earlier l hl encoded handoff answer hmem).1, nofun⟩
    · exact (hsubmitted _ _ _ _ (List.mem_singleton.mp hmem).symm).2 l' hl' rfl
  case recorded =>
    intro l' hl'
    rcases hfrom l' hl' with hl | ⟨l, hl, refusal, rfl⟩
    · exact ⟨(h.recorded l' hl).1, (h.recorded l' hl).2.mono _⟩
    · exact ⟨(h.recorded l hl).1, (h.recorded l hl).2.mono _⟩
  case pending =>
    intro l' hl'
    rcases hfrom l' hl' with hl | ⟨l, hl, refusal, rfl⟩
    · exact h.pending l' hl
    · exact h.pending l hl
  case async =>
    intro t ht
    rw [acceptedTokens_snoc]
    rcases hasync t ht with ht | ht
    · exact List.mem_append_left _ (h.async t ht)
    · exact List.mem_append_right _ ht
  case handoffs =>
    intro t encoded before after htrace
    rcases split_snoc htrace with ⟨rest, hold, rfl⟩ | ⟨-, heq, -⟩
    · rcases h.handoffs t encoded before rest hold with ht | ⟨e', he', hends'⟩
      · exact (hends t ht).imp_right fun hend => ⟨e, by simp, hend⟩
      · exact .inr ⟨e', List.mem_append_left _ he', hends'⟩
    · exact .inl (hhandoff t encoded heq.symm)

theorem note (h : Retained enc leases asyncLeases trace)
    (hnot : ∀ t encoded handoff answer, e ≠ .submitted t encoded handoff answer) :
    Retained enc leases asyncLeases (trace ++ [e]) :=
  h.snoc e (fun _ => .inl) (fun _ hl => .inl (List.mem_map_of_mem hl))
    (fun _ _ _ _ heq => absurd heq (hnot _ _ _ _)) (fun _ => .inl) (fun _ => .inl)
    fun _ _ heq => absurd heq (hnot _ _ _ _)

/-- A completion is recorded for a token that nothing was submitted for. -/
theorem admit_new (h : Retained enc leases asyncLeases trace) {lease : Lease}
    (hnew : ∀ encoded handoff answer, .submitted lease.token encoded handoff answer ∉ trace)
    (hgood : Good enc lease.token) (hencoded : Encoded enc trace lease.token lease.encoded)
    (hpending : ∀ handle, lease.acceptedResult = .asyncHandoff handle →
      handle.lifecycle = .handoffPending) :
    Retained enc (insertLease lease leases) asyncLeases trace := by
  have hcases : ∀ {P : Lease → Prop}, P lease → (∀ l ∈ leases, P l) →
      ∀ l ∈ insertLease lease leases, P l := by
    intro P hlease hleases l hl
    rcases Adapter.mem_insertLease.mp hl with rfl | hl
    · exact hlease
    · exact hleases l hl
  refine { h with submitted := ?_, earlier := ?_, recorded := ?_, pending := ?_ }
  · intro t encoded handoff answer hmem
    refine (h.submitted t encoded handoff answer hmem).imp_left fun ht => ?_
    obtain ⟨l, hl, rfl⟩ := List.mem_map.mp ht
    exact List.mem_map_of_mem (Adapter.mem_insertLease.mpr (.inr hl))
  · exact hcases (fun encoded handoff answer hmem => absurd hmem (hnew encoded handoff answer))
      h.earlier
  · exact hcases ⟨hgood, hencoded⟩ h.recorded
  · exact hcases hpending h.pending

end Retained

namespace Books

variable {enc : CompletionEncoder} {eligible : Bytes → Prop} {s : Adapter} {hand : List Bytes}
  {t : Bytes}

theorem eligible_of_delivered (hs : Books enc eligible s hand) (ht : t ∈ deliveredStarts s.trace) :
    eligible t := by
  obtain ⟨e, he, hstart⟩ := List.mem_filterMap.mp ht
  obtain ⟨before, after, htrace⟩ := List.append_of_mem he
  match e with
  | .delivered ⟨t', .start st⟩ =>
    cases hstart
    exact (hs.allowed before _ after htrace).2

theorem started_of_cancel {c : ActivityCancel} (hs : Books enc eligible s hand)
    (hc : .delivered ⟨t, .cancel c⟩ ∈ s.trace) : t ∈ deliveredStarts s.trace := by
  obtain ⟨before, after, htrace⟩ := List.append_of_mem hc
  have hstart : t ∈ deliveredStarts before := (hs.allowed before _ after htrace).1
  rw [htrace, deliveredStarts, List.filterMap_append]
  exact List.mem_append_left _ hstart

theorem lane (hs : Books enc eligible s hand) (lane : LaneState) :
    Books enc eligible { s with lane } hand :=
  { hs with counted := { hs.counted with } }

/-! ### Deliveries -/

theorem deferStart (hs : Books enc eligible s hand) (st : ActivityStart)
    (hlawful : Lawful eligible s.trace ⟨t, .start st⟩) :
    Books enc eligible { s.note (.delivered ⟨t, .start st⟩) with
      deferred := s.deferred ++ [.task ⟨t, .start st⟩] } hand where
  counted := by
    have hstarts : deliveredStarts (s.trace ++ [.delivered ⟨t, .start st⟩]) =
        deliveredStarts s.trace ++ [t] := by simp [Event.start?]
    have hplaces : ∀ u, places { s.note (.delivered ⟨t, .start st⟩) with
        deferred := s.deferred ++ [.task ⟨t, .start st⟩] } hand u =
          s.places hand u + [t].count u := by
      intro u
      simp only [places, Adapter.note, leaseTokens, Adapter.startTokens_append,
        Adapter.startTokens_start, Adapter.startTokens_nil, List.count_append,
        acceptedTokens_snoc, discardedTokens_snoc, Event.accepted?, Event.gone, Option.toList_none,
        List.append_nil]
      omega
    constructor
    · rw [Adapter.note, hstarts]
      exact List.nodup_append.mpr ⟨hs.counted.distinct, List.nodup_singleton t, fun a ha b hb heq =>
        hlawful.1 (List.mem_singleton.mp hb ▸ heq ▸ ha)⟩
    · intro u
      have := hs.counted.held u
      rw [hplaces, Adapter.note, hstarts, List.count_append]
      omega
    · intro u hu
      have := hs.counted.kept u hu
      rw [hplaces, Adapter.note, hstarts, List.count_append]
      omega
  queued := by
    refine hs.queued.deferStart st hlawful.1 (List.eq_nil_iff_forall_not_mem.mpr fun c hc => ?_)
    exact hlawful.1 (hs.started_of_cancel (mem_deliveredCancels.mp hc))
  retained := hs.retained.note (by simp)
  allowed := hs.allowed.snoc hlawful

/-- A cancellation is appended to the queue, while no completion is retained. -/
theorem deferCancel (hs : Books enc eligible s hand) (c : ActivityCancel)
    (hlawful : Lawful eligible s.trace ⟨t, .cancel c⟩) (hleases : s.leases = [])
    (hhand : t ∉ hand) :
    Books enc eligible { s.note (.delivered ⟨t, .cancel c⟩) with
      deferred := s.deferred ++ [.task ⟨t, .cancel c⟩] } hand where
  counted := hs.counted.note rfl rfl fun u => by
    simp [Adapter.note, leaseTokens, Event.accepted?, Event.gone]
  queued := by
    refine hs.queued.deferCancel c ?_
    by_cases hgood : Good enc t
    · refine .inl ?_
      have hplace := hs.counted.outstanding hgood hlawful.1 hlawful.2.1 hlawful.2.2
      simpa [leaseTokens, hleases, hhand] using hplace
    · exact .inr hgood
  retained := hs.retained.note (by simp)
  allowed := hs.allowed.snoc hlawful

theorem deliverCancel (hs : Books enc eligible s hand) (c : ActivityCancel)
    (hlawful : Lawful eligible s.trace ⟨t, .cancel c⟩) (hhand : t ∈ hand) :
    Books enc eligible (s.note (.delivered ⟨t, .cancel c⟩)) hand where
  counted := hs.counted.note rfl rfl fun _ => rfl
  queued := by
    have hout := (hs.counted.of_hand hhand).2.1
    refine hs.queued.note rfl (fun u hu => if_neg ?_) (fun _ h => by cases h)
    rintro rfl
    exact hout hu
  retained := hs.retained.note (by simp)
  allowed := hs.allowed.snoc hlawful

theorem deferPollError (hs : Books enc eligible s hand) (e : ErrorView) :
    Books enc eligible { s with deferred := s.deferred ++ [.pollError e] } hand :=
  { hs with
    counted := hs.counted.move rfl fun u => by simp [places, leaseTokens]
    queued := hs.queued.deferPollError e }

/-! ### Taking work out of the queue -/

variable {st : ActivityStart} {rest : List DeferredWork} {lease : Lease}

/-- The start at the head of the queue is taken in hand. -/
theorem take (hs : Books enc eligible s hand) (hhead : s.deferred = .task ⟨t, .start st⟩ :: rest) :
    Books enc eligible { s with deferred := dropCancels t rest } (t :: hand) ∧
      cancelsFor t rest = deliveredCancels t s.trace ∧ ∀ e ∈ s.trace, ¬ e.Touches t := by
  have hmem : t ∈ startTokens s.deferred := by simp [hhead]
  have honce : t ∉ startTokens rest := by
    have hone := hs.counted.places_le_one t
    simp only [places, hhead, Adapter.startTokens_start, List.count_cons_self] at hone
    exact List.count_eq_zero.mp (by omega)
  refine ⟨⟨?_, (hhead ▸ hs.queued).take honce, hs.retained, hs.allowed⟩, ?_, ?_⟩
  · refine hs.counted.move rfl fun u => ?_
    simp only [places, hhead, Adapter.startTokens_start, Adapter.startTokens_dropCancels,
      List.count_cons, leaseTokens]
    omega
  · rw [← hs.queued.cancels t hmem, hhead, Adapter.cancelsFor_start]
  · exact fun e he htouch => (hs.queued.touched t e he htouch).2 hmem

theorem dropStart (hs : Books enc eligible s hand)
    (hhead : s.deferred = .task ⟨t, .start st⟩ :: rest) (hbad : ¬ Good enc t) :
    Books enc eligible { s with deferred := rest } hand := by
  refine { hs with counted := hs.counted.lose hbad fun u => ?_
                   queued := (hhead ▸ hs.queued).dropStart hbad }
  simp only [places, hhead, Adapter.startTokens_start, leaseTokens, List.count_cons,
    List.count_nil]
  omega

theorem dropPollError {e : ErrorView} (hs : Books enc eligible s hand)
    (hhead : s.deferred = .pollError e :: rest) :
    Books enc eligible { s with deferred := rest } hand :=
  { hs with
    counted := hs.counted.move rfl fun u => by simp [places, leaseTokens, hhead]
    queued := (hhead ▸ hs.queued).dropPollError }

/-- A cancellation at the head of the queue has lost its start. -/
theorem dropCancel {c : ActivityCancel} (hs : Books enc eligible s hand)
    (hhead : s.deferred = .task ⟨t, .cancel c⟩ :: rest) :
    Books enc eligible { s with deferred := rest } hand ∧ ¬ Good enc t ∧ t ∉ startTokens rest ∧
      .delivered ⟨t, .cancel c⟩ ∈ s.trace := by
  have hqueued := hhead ▸ hs.queued
  obtain ⟨hrest, hbad, hout⟩ := hqueued.dropCancel
  refine ⟨⟨?_, hrest, hs.retained, hs.allowed⟩, hbad, hout, hqueued.known _ List.mem_cons_self⟩
  exact hs.counted.move rfl fun u => by simp [places, leaseTokens, hhead]

theorem takeAll (hs : Books enc eligible s hand) :
    Books enc eligible { s with deferred := [] } (startTokens s.deferred ++ hand) := by
  refine { hs with counted := hs.counted.move rfl fun u => ?_, queued := hs.queued.clear }
  simp only [places, Adapter.startTokens_nil, leaseTokens, List.count_append, List.count_nil]
  omega

/-! ### What happens to an attempt -/

/-- The event is about an attempt and no submission. -/
def Plain : Event → Prop
  | .ran _ | .observed _ _ | .built _ _ | .handedOff _ => True
  | _ => False

theorem note {e : Event} (hs : Books enc eligible s hand) (hplain : Plain e)
    (htouch : ∀ t, e.Touches t → t ∈ deliveredStarts s.trace ∧ t ∉ startTokens s.deferred)
    (hallowed : Allowed enc eligible s.trace e) : Books enc eligible (s.note e) hand where
  counted := by
    refine hs.counted.note ?_ rfl fun u => ?_ <;> cases e <;> first | rfl | cases hplain
  queued := by
    refine hs.queued.note ?_ (fun t _ => ?_) htouch <;> cases e <;> first | rfl | cases hplain
  retained := hs.retained.note fun _ _ _ _ heq => by
    subst heq
    cases hplain
  allowed := hs.allowed.snoc hallowed

theorem admit_new (hs : Books enc eligible s (lease.token :: hand)) (hgood : Good enc lease.token)
    (hencoded : Encoded enc s.trace lease.token lease.encoded)
    (hpending : ∀ handle, lease.acceptedResult = .asyncHandoff handle →
      handle.lifecycle = .handoffPending) :
    Books enc eligible { s with leases := insertLease lease s.leases } hand := by
  have ⟨_, _, hleases, haccepted, hgone⟩ := hs.counted.of_hand List.mem_cons_self
  have hnew : ∀ encoded handoff answer, .submitted lease.token encoded handoff answer ∉
    s.trace := by
    intro encoded handoff answer hsub
    rcases hs.retained.submitted _ _ _ _ hsub with h | h | h
    · exact hleases h
    · exact haccepted h
    · exact hgone h
  refine { hs with counted := hs.counted.move rfl fun u => ?_
                   retained := hs.retained.admit_new hnew hgood hencoded hpending }
  have := ((Adapter.insertLease_perm lease s.leases).map Lease.token).count_eq u
  simp only [places, leaseTokens, List.count_cons, List.map_cons] at this ⊢
  omega

/-- A token that no completion can be encoded for is lost. -/
theorem lose (hs : Books enc eligible s (t :: hand)) (hbad : ¬ Good enc t) :
    Books enc eligible s hand := by
  refine { hs with counted := hs.counted.lose hbad fun u => ?_ }
  simp only [places, leaseTokens, List.count_cons, List.count_nil]
  omega

/-! ### Submissions

Core answers a submission by accepting it, by a failure after which the same bytes may be tried
again, or by one after which they may not; the lease of the last kind stays, and is refused from
then on. -/

/-- A retained completion may be submitted unless it was refused. -/
theorem submit_allowed (hs : Books enc eligible s hand) (hlease : lease ∈ s.leases)
    (hnone : lease.retryRefusal = none) (handoff : Bool) (answer : Answer) :
    Allowed enc eligible s.trace (.submitted lease.token lease.encoded handoff answer) := by
  have ⟨hgood, hencoded⟩ := hs.retained.recorded lease hlease
  refine ⟨hgood, hencoded, fun encoded' handoff' answer' hsub => ?_⟩
  have ⟨hsame, hretry⟩ := hs.retained.earlier lease hlease encoded' handoff' answer' hsub
  exact ⟨hsame, hretry hnone⟩

theorem submit_queued (hs : Books enc eligible s hand) (hlease : lease ∈ s.leases) (encoded : Bytes)
    (handoff : Bool) (answer : Answer) :
    Queued enc s.deferred (s.trace ++ [.submitted lease.token encoded handoff answer]) := by
  refine hs.queued.note rfl (fun _ _ => rfl) ?_
  rintro u rfl
  have ⟨hold, hout, _⟩ := hs.counted.of_lease (List.mem_map_of_mem hlease)
  exact ⟨hold, hout⟩

/-- A submission fails. The leases stay; the one that was submitted may be refused, and it is
if the failure is not retryable. -/
theorem submit_failed {answer : Answer} {leases : List Lease} (hs : Books enc eligible s hand)
    (hlease : lease ∈ s.leases) (hnone : lease.retryRefusal = none) (hfailed : answer ≠ .accepted)
    (htokens : leases.map Lease.token = s.leases.map Lease.token)
    (hfrom : ∀ l' ∈ leases, (l' ∈ s.leases ∧ (l'.token = lease.token → answer.isRetryable = true)) ∨
      ∃ l ∈ s.leases, ∃ refusal, l' = { l with retryRefusal := some refusal }) (handoff : Bool) :
    Books enc eligible { s.note (.submitted lease.token lease.encoded handoff answer) with leases }
      hand where
  counted := by
    refine hs.counted.note rfl rfl fun u => ?_
    rw [leaseTokens, htokens]
    cases answer <;> first | rfl | exact absurd rfl hfailed
  queued := hs.submit_queued hlease _ _ _
  retained := by
    have hsame : ∀ l ∈ s.leases, l.token = lease.token → lease.encoded = l.encoded :=
      fun l hl heq => congrArg Lease.encoded (hs.counted.lease_unique hlease hl heq.symm)
    refine hs.retained.snoc _ (fun l' hl' => (hfrom l' hl').imp_left And.left) ?_ ?_
      (fun _ => .inl) (fun _ => .inl) ?_
    · exact fun l hl => .inl (htokens ▸ List.mem_map_of_mem hl)
    · rintro _ _ _ _ ⟨⟩
      refine ⟨List.mem_map_of_mem hlease, fun l' hl' htoken => ?_⟩
      rcases hfrom l' hl' with ⟨hl, hretry⟩ | ⟨l, hl, refusal, rfl⟩
      · exact ⟨hsame l' hl htoken, fun _ => hretry htoken⟩
      · exact ⟨hsame l hl htoken, nofun⟩
    · rintro _ _ ⟨⟩
      exact absurd rfl hfailed
  allowed := hs.allowed.snoc (hs.submit_allowed hlease hnone _ _)

theorem submit_retryable {answer : Answer} (hs : Books enc eligible s hand)
    (hlease : lease ∈ s.leases) (hnone : lease.retryRefusal = none)
    (hretry : answer.isRetryable = true) (handoff : Bool) :
    Books enc eligible (s.note (.submitted lease.token lease.encoded handoff answer)) hand := by
  refine hs.submit_failed hlease hnone ?_ rfl (fun l' hl' => .inl ⟨hl', fun _ => hretry⟩) handoff
  rintro rfl
  cases hretry

theorem submit_refused {answer : Answer} (hs : Books enc eligible s hand)
    (hlease : lease ∈ s.leases) (hnone : lease.retryRefusal = none) (hfailed : answer ≠ .accepted)
    (handoff : Bool) (e : ErrorView) :
    Books enc eligible ((s.note (.submitted lease.token lease.encoded handoff answer)).refuse
      lease.token e) hand := by
  refine hs.submit_failed hlease hnone hfailed ?_ ?_ handoff
  · rw [List.map_map]
    refine List.map_congr_left fun l _ => ?_
    simp only [Function.comp_apply]
    split <;> rfl
  · intro l' hl'
    obtain ⟨l, hl, rfl⟩ := List.mem_map.mp hl'
    split
    · exact .inr ⟨l, hl, e, rfl⟩
    · rename_i hne
      exact .inl ⟨hl, fun heq => absurd heq hne⟩

/-- A submission is accepted: the lease goes, and a handoff becomes an async lease. -/
theorem submit_accepted (hs : Books enc eligible s hand) (hlease : lease ∈ s.leases)
    (hnone : lease.retryRefusal = none) (handoff : Bool) :
    Books enc eligible { s.note (.submitted lease.token lease.encoded handoff .accepted) with
      leases := removeLease lease.token s.leases
      asyncLeases := if handoff then s.asyncLeases ++ [lease.token] else s.asyncLeases } hand where
  counted := by
    refine hs.counted.note rfl rfl fun u => ?_
    have := Adapter.count_removeLease (List.mem_map_of_mem hlease) hs.counted.leases_nodup u
    simp only [Adapter.note, leaseTokens, Event.accepted?, Event.gone, Option.toList_some,
      List.count_nil]
    omega
  queued := hs.submit_queued hlease _ _ _
  retained := by
    refine hs.retained.snoc _ (fun l hl => .inl (Adapter.mem_removeLease.mp hl).1) ?_ ?_ ?_ ?_ ?_
    · intro l hl
      by_cases htoken : l.token = lease.token
      · exact .inr (.inl (by simp [Event.accepted?, htoken]))
      · exact .inl (List.mem_map_of_mem (Adapter.mem_removeLease.mpr ⟨hl, htoken⟩))
    · rintro _ _ _ _ ⟨⟩
      exact ⟨List.mem_map_of_mem hlease, fun l hl htoken =>
        absurd htoken (Adapter.mem_removeLease.mp hl).2⟩
    · intro u hu
      cases handoff with
      | false => exact .inl hu
      | true => exact List.mem_append.mp hu
    · intro u hu
      cases handoff with
      | false => exact .inl hu
      | true => exact .inl (List.mem_append_left _ hu)
    · rintro _ _ ⟨⟩
      simp
  allowed := hs.allowed.snoc (hs.submit_allowed hlease hnone _ _)

/-! ### Async leases and discards -/

theorem endAsync (hs : Books enc eligible s hand) :
    Books enc eligible
      ({ s with asyncLeases := s.asyncLeases.filter (· ≠ t) }.note (.asyncEnded t)) hand where
  counted := hs.counted.note rfl rfl fun _ => rfl
  queued := hs.queued.note rfl (fun _ _ => rfl) (fun _ h => by cases h)
  retained := by
    refine hs.retained.snoc _ (fun _ => .inl) (fun _ hl => .inl (List.mem_map_of_mem hl)) nofun
      (fun u hu => .inl (List.mem_of_mem_filter hu)) (fun u hu => ?_) nofun
    by_cases hut : u = t
    · exact .inr hut.symm
    · exact .inl (List.mem_filter.mpr ⟨hu, by simpa using hut⟩)
  allowed := hs.allowed.snoc trivial

theorem discard (hs : Books enc eligible s hand) :
    Books enc eligible ({ s with deferred := [], leases := [], asyncLeases := [] }.note
      (.discarded (startTokens s.deferred ++ s.leases.map Lease.token) s.asyncLeases))
        hand where
  counted := by
    refine hs.counted.note rfl rfl fun u => ?_
    simp only [Adapter.note, leaseTokens, Event.accepted?, Event.gone, Option.toList_none,
      List.count_append, Adapter.startTokens_nil, List.map_nil, List.count_nil]
    omega
  queued := hs.queued.clear.note rfl (fun _ _ => rfl) (fun _ h => by cases h)
  retained := hs.retained.snoc _ nofun
    (fun l hl => .inr (.inr (List.mem_append_right _ (List.mem_map_of_mem hl)))) nofun nofun
    (fun _ => .inr) nofun
  allowed := hs.allowed.snoc trivial

end Books

end OcamlTemporal.Activity
