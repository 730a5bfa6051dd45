import OcamlTemporal.Lib.History
import OcamlTemporal.Worker.Adapter

/-!
# OcamlTemporal.Worker.Ownership

**Who owns a polled activation.** What lane and watchdogs record about an activation
is restricted by what they recorded before (`Allowed`): one claim, submissions only by
the party that has it, the same bytes each time and nothing after an answer that
cannot be retried.

* `Core` is what holds whatever the lane is doing; there is one lemma for each thing
  lane and watchdogs do to the flights, the retained completions and the trace.
* `LaneOk` is what is known of the activation in the hands of the lane, by its stage.
  `LaneOk.watch` says that a watchdog does not disturb it.
* `Kept` is both together.
-/

namespace OcamlTemporal.Worker

open OcamlTemporal.Protocol
open OcamlTemporal.Lib (Justified filterMap_snoc split_snoc)

/-! ## Reading a trace

The statements about whole runs are statements about traces: `Allowed` says of every event what must
have come before it. A trace in which every event is allowed has each completion claimed before it
is submitted, and submitted again only after an answer that can be retried. -/

def laneSubmissions (epoch : Nat) (trace : List Event) : List (Bytes × Answer) :=
  trace.filterMap fun
    | .submitted e .lane encoded answer => if e = epoch then some (encoded, answer) else none
    | _ => none

/-- The completion that the lane retained for the activation was accepted or
discarded. -/
def Settled (trace : List Event) (epoch : Nat) : Prop :=
  (∃ encoded, .submitted epoch .lane encoded .accepted ∈ trace) ∨
    ∃ epochs, .discarded epochs ∈ trace ∧ epoch ∈ epochs

/-- No activation was polled after this one. -/
def Newest (trace : List Event) (epoch : Nat) : Prop :=
  ∀ epoch' activation, .polled epoch' activation ∈ trace → epoch' ≤ epoch

/-- The lane submits a replacement completion once, unless the watchdog has the claim or
the completion cannot be encoded. -/
def FirstAttempt (encode : Completion → Except ErrorView Bytes) (trace : List Event) (epoch : Nat) :
    Prop :=
  (.claimed epoch .lane ∉ trace →
      .claimed epoch .watchdog ∈ trace ∧ laneSubmissions epoch trace = []) ∧
    (.claimed epoch .lane ∈ trace → ∀ completion, .built epoch completion ∈ trace →
      match encodeSubmission encode completion with
      | .ok encoded => ∃ answer, laneSubmissions epoch trace = [(encoded, answer)]
      | .error _ => laneSubmissions epoch trace = [])

/-- If the activation is query-only and its completion was replaced, then acknowledging
the replacement leaves the run alone. -/
def SparesRun (trace : List Event) (epoch : Nat) (result : PendingResult) : Prop :=
  ∀ activation completion, .polled epoch activation ∈ trace →
    (queryOnlyIds activation).isSome = true → .built epoch completion ∈ trace →
      ∃ e, result = .rejected e false

/-- What may follow what in a trace. An activation is polled once, and only when everything that the
lane claimed is settled; it is claimed once; only the party with the claim submits, and what it
submits again is the same. With `spare` a query-only activation that failed does not remove its
run. -/
def Allowed (encode : Completion → Except ErrorView Bytes) (spare : Prop) (before : List Event) :
    Event → Prop
  | .polled epoch _ => (∀ activation, .polled epoch activation ∉ before) ∧
      ∀ epoch', .claimed epoch' .lane ∈ before → Settled before epoch'
  | .built epoch completion => (∀ completion', .built epoch completion' ∉ before) ∧
      (∀ runId, .removed epoch runId ∉ before) ∧ ∃ activation e, .polled epoch activation ∈ before ∧
        completion = failureCompletion activation e
  | .claimed epoch _ => (∃ activation, .polled epoch activation ∈ before) ∧
      ∀ party, .claimed epoch party ∉ before
  | .submitted epoch party encoded _ => .claimed epoch party ∈ before ∧
      ∀ party' encoded' answer, .submitted epoch party' encoded' answer ∈ before →
        encoded' = encoded ∧ answer.isRetryable = true
  | .finished epoch => FirstAttempt encode before epoch
  | .removed epoch runId =>
      (∃ activation, .polled epoch activation ∈ before ∧ activation.runId = runId) ∧
        Newest before epoch ∧
        ((∃ party encoded, .submitted epoch party encoded .accepted ∈ before) ∨
          .claimed epoch .watchdog ∈ before) ∧
        (spare → ∀ activation completion, .polled epoch activation ∈ before →
          (queryOnlyIds activation).isSome = true → .built epoch completion ∉ before)
  | .discarded _ => True

section Trace

variable {encode : Completion → Except ErrorView Bytes} {spare : Prop} {trace : List Event}
  {epoch : Nat} {event : Event}

theorem mem_note {e : Event} (h : event ≠ e) : e ∈ trace ++ [event] ↔ e ∈ trace := by
  simp [h.symm]

theorem laneSubmissions_snoc (event : Event) :
    laneSubmissions epoch (trace ++ [event]) = laneSubmissions epoch trace ++
      (match event with
        | .submitted e .lane encoded answer => if e = epoch then some (encoded, answer) else none
        | _ => none).toList := filterMap_snoc ..

theorem mem_laneSubmissions {encoded : Bytes} {answer : Answer} :
    (encoded, answer) ∈ laneSubmissions epoch trace ↔
      .submitted epoch .lane encoded answer ∈ trace := by
  rw [laneSubmissions, List.mem_filterMap]
  constructor
  · rintro ⟨event, hmem, heq⟩
    split at heq
    · split at heq
      · rename_i hepoch
        cases heq
        rwa [hepoch] at hmem
      · cases heq
    · cases heq
  · intro hmem
    exact ⟨_, hmem, by simp⟩

theorem Settled.mono {more : List Event} (h : Settled trace epoch) :
    Settled (trace ++ more) epoch := by
  rcases h with ⟨encoded, h⟩ | ⟨epochs, h, hmem⟩
  · exact .inl ⟨encoded, List.mem_append_left _ h⟩
  · exact .inr ⟨epochs, List.mem_append_left _ h, hmem⟩

theorem Newest.note (h : Newest trace epoch)
    (hevent : ∀ epoch activation, event ≠ .polled epoch activation) :
    Newest (trace ++ [event]) epoch :=
  fun epoch' activation hmem => h epoch' activation ((mem_note (hevent _ _)).mp hmem)

theorem SparesRun.note {result : PendingResult} (h : SparesRun trace epoch result)
    (hpolled : ∀ epoch activation, event ≠ .polled epoch activation)
    (hbuilt : ∀ epoch completion, event ≠ .built epoch completion) :
    SparesRun (trace ++ [event]) epoch result :=
  fun activation completion hmem hquery hmem' =>
    h activation completion ((mem_note (hpolled _ _)).mp hmem) hquery
      ((mem_note (hbuilt _ _)).mp hmem')

theorem claimed_of_submitted (h : Justified (Allowed encode spare) trace) {party : Party}
    {encoded : Bytes} {answer : Answer} (hmem : .submitted epoch party encoded answer ∈ trace) :
    .claimed epoch party ∈ trace := by
  obtain ⟨before, hsub, hclaimed, -⟩ := h.of_mem hmem
  exact hsub hclaimed

/-- The claim is taken by one party only: of two claims in a trace the later one would not have been
allowed. -/
theorem claimed_unique (h : Justified (Allowed encode spare) trace) {party party' : Party}
    (hmem : .claimed epoch party ∈ trace) (hmem' : .claimed epoch party' ∈ trace) :
    party = party' := by
  obtain ⟨before, after, htrace⟩ := List.append_of_mem hmem
  rw [htrace] at hmem'
  rcases List.mem_append.mp hmem' with hbefore | hafter
  · exact absurd hbefore ((h before _ after htrace).2 party')
  · rcases List.mem_cons.mp hafter with heq | hafter
    · cases heq
      rfl
    · obtain ⟨middle, rest, rfl⟩ := List.append_of_mem hafter
      refine absurd ?_ ((h (before ++ .claimed epoch party :: middle) (.claimed epoch party') rest
        (by simp [htrace])).2 party)
      simp

end Trace

/-! ## What lane and watchdogs keep

The parts of `Core` are independent of each other: what the flights say, what is retained,
and what the watchdogs do. Each has its own rules for an event that is recorded. -/

/-- The flights are the activations that were polled, with their claims. -/
structure Flown (flights : List Flight) (trace : List Event) : Prop where
  flown : ∀ epoch flight, flights[epoch]? = some flight →
    .polled epoch flight.activation ∈ trace ∧
      ∀ party, flight.claim = some party ↔ .claimed epoch party ∈ trace
  polled : ∀ epoch activation, .polled epoch activation ∈ trace →
    ∃ flight, flights[epoch]? = some flight ∧ flight.activation = activation

namespace Flown

variable {flights : List Flight} {trace trace' : List Event} {event : Event} {epoch : Nat}
  {flight : Flight}

theorem epoch_lt (h : Flown flights trace) {activation : Activation}
    (hmem : .polled epoch activation ∈ trace) : epoch < flights.length := by
  obtain ⟨flight, hflight, -⟩ := h.polled epoch activation hmem
  exact (List.getElem?_eq_some_iff.mp hflight).1

theorem polled_unique (h : Flown flights trace) {activation activation' : Activation}
    (hmem : .polled epoch activation ∈ trace) (hmem' : .polled epoch activation' ∈ trace) :
    activation = activation' := by
  obtain ⟨flight, hflight, rfl⟩ := h.polled epoch activation hmem
  obtain ⟨flight', hflight', rfl⟩ := h.polled epoch activation' hmem'
  rw [hflight] at hflight'
  cases hflight'
  rfl

theorem note (h : Flown flights trace)
    (hpolled : ∀ epoch activation, event ≠ .polled epoch activation)
    (hclaimed : ∀ epoch party, event ≠ .claimed epoch party) :
    Flown flights (trace ++ [event]) where
  flown epoch flight hflight := by
    simp only [mem_note (hpolled _ _), mem_note (hclaimed _ _)]
    exact h.flown epoch flight hflight
  polled epoch activation hmem := h.polled epoch activation ((mem_note (hpolled _ _)).mp hmem)

theorem poll (h : Flown flights trace) (activation : Activation)
    (hunclaimed : ∀ party, .claimed flights.length party ∉ trace) :
    Flown (flights ++ [⟨activation, none, none⟩])
      (trace ++ [.polled flights.length activation]) := by
  constructor
  · intro epoch flight hflight
    rw [List.getElem?_append] at hflight
    split at hflight
    · have ⟨hpolled, hclaim⟩ := h.flown epoch flight hflight
      exact ⟨List.mem_append_left _ hpolled, fun party => by simpa using hclaim party⟩
    · obtain ⟨hlast, rfl⟩ : epoch - flights.length = 0 ∧ ⟨activation, none, none⟩ = flight := by
        simpa [List.getElem?_singleton] using hflight
      obtain rfl : epoch = flights.length := by omega
      refine ⟨by simp, fun party => ?_⟩
      simpa using hunclaimed party
  · intro epoch activation' hmem
    rcases List.mem_append.mp hmem with hmem | hmem
    · obtain ⟨flight, hflight, hactivation⟩ := h.polled epoch activation' hmem
      exact ⟨flight, List.getElem?_append_left (h.epoch_lt hmem) ▸ hflight, hactivation⟩
    · obtain ⟨rfl, rfl⟩ : epoch = flights.length ∧ activation' = activation := by simpa using hmem
      exact ⟨⟨activation', none, none⟩, by simp, rfl⟩

theorem set (h : Flown flights trace) (hflight : flights[epoch]? = some flight)
    {claim : Option Party} (outcome : Option (Except ErrorView Unit))
    (hpolled : ∀ epoch activation, .polled epoch activation ∈ trace' ↔
      .polled epoch activation ∈ trace)
    (hclaim : ∀ party, claim = some party ↔ .claimed epoch party ∈ trace')
    (hother : ∀ epoch' party, epoch' ≠ epoch →
      (.claimed epoch' party ∈ trace' ↔ .claimed epoch' party ∈ trace)) :
    Flown (flights.set epoch ⟨flight.activation, claim, outcome⟩) trace' := by
  have hlt := (List.getElem?_eq_some_iff.mp hflight).1
  constructor
  · intro epoch' flight' hflight'
    rw [hpolled]
    by_cases hepoch : epoch = epoch'
    · subst hepoch
      rw [List.getElem?_set_self hlt] at hflight'
      cases hflight'
      exact ⟨(h.flown epoch flight hflight).1, hclaim⟩
    · rw [List.getElem?_set_ne hepoch] at hflight'
      have ⟨hpolled', hclaim'⟩ := h.flown epoch' flight' hflight'
      exact ⟨hpolled', fun party => (hclaim' party).trans
        (hother epoch' party (Ne.symm hepoch)).symm⟩
  · intro epoch' activation hmem
    obtain ⟨flight', hflight', hactivation⟩ := h.polled epoch' activation ((hpolled _ _).mp hmem)
    by_cases hepoch : epoch = epoch'
    · subst hepoch
      rw [hflight] at hflight'
      cases hflight'
      exact ⟨_, List.getElem?_set_self hlt, hactivation⟩
    · exact ⟨flight', by rwa [List.getElem?_set_ne hepoch], hactivation⟩

end Flown

/-- A retained completion belongs to an activation that the lane has claimed, and the newest one.
Whatever was submitted for that activation before is this completion, and if it may be submitted
again then every answer so far allows it. -/
structure Owned (spare : Prop) (trace : List Event) (p : Pending) : Prop where
  claimed : .claimed p.epoch .lane ∈ trace
  run : ∃ activation, .polled p.epoch activation ∈ trace ∧ activation.runId = p.runId
  newest : Newest trace p.epoch
  spares : spare → SparesRun trace p.epoch p.result
  unaccepted : ∀ party encoded, .submitted p.epoch party encoded .accepted ∉ trace
  earlier : ∀ party encoded answer, .submitted p.epoch party encoded answer ∈ trace →
    p.submission = .ok encoded ∧ (p.retryRefusal = none → answer.isRetryable = true)

/-- At most one completion is retained, and one for each activation that the lane has
claimed and not settled. -/
structure Retained (spare : Prop) (pending : List Pending) (trace : List Event) : Prop where
  single : pending.length ≤ 1
  owned : ∀ p ∈ pending, Owned spare trace p
  settled : ∀ epoch, .claimed epoch .lane ∈ trace →
    Settled trace epoch ∨ epoch ∈ pending.map Pending.epoch

section Retained

variable {spare : Prop} {pending : List Pending} {trace : List Event} {event : Event} {p : Pending}

theorem Owned.refuse (h : Owned spare trace p) (e : ErrorView) :
    Owned spare trace { p with retryRefusal := some e } :=
  { h with earlier := fun party encoded answer hmem =>
    ⟨(h.earlier party encoded answer hmem).1, nofun⟩ }

theorem Owned.note (h : Owned spare trace p)
    (hpolled : ∀ epoch activation, event ≠ .polled epoch activation)
    (hbuilt : ∀ epoch completion, event ≠ .built epoch completion)
    (hsubmitted : ∀ party encoded answer, event ≠ .submitted p.epoch party encoded answer) :
    Owned spare (trace ++ [event]) p where
  claimed := List.mem_append_left _ h.claimed
  run := h.run.imp fun _ hrun => ⟨List.mem_append_left _ hrun.1, hrun.2⟩
  newest := h.newest.note hpolled
  spares hspare := (h.spares hspare).note hpolled hbuilt
  unaccepted party encoded hmem :=
    h.unaccepted party encoded ((mem_note (hsubmitted _ _ _)).mp hmem)
  earlier party encoded answer hmem :=
    h.earlier party encoded answer ((mem_note (hsubmitted _ _ _)).mp hmem)

theorem Retained.eq_single (h : Retained spare pending trace) (hp : p ∈ pending) :
    pending = [p] := by
  match pending, h.single, hp with
  | [q], _, hq => rw [List.mem_singleton.mp hq]

theorem Retained.note (h : Retained spare pending trace)
    (hclaimed : ∀ epoch, event ≠ .claimed epoch .lane)
    (howned : ∀ p ∈ pending, Owned spare trace p → Owned spare (trace ++ [event]) p) :
    Retained spare pending (trace ++ [event]) where
  single := h.single
  owned p hp := howned p hp (h.owned p hp)
  settled epoch hmem :=
    (h.settled epoch ((mem_note (hclaimed epoch)).mp hmem)).imp_left Settled.mono

end Retained

/-- A watchdog with a claim to an activation is the first to submit something for it. -/
def WatchdogOk (trace : List Event) : WatchdogStage → Prop
  | .idle | .holding _ => True
  | .claimed epoch => .claimed epoch .watchdog ∈ trace ∧
      ∀ party encoded answer, .submitted epoch party encoded answer ∉ trace
  | .submitted epoch _ => .claimed epoch .watchdog ∈ trace

/-- No two watchdogs have the claim to one activation. -/
structure Guarded (watchdogs : Nat → WatchdogStage) (trace : List Event) : Prop where
  guarded : ∀ w, WatchdogOk trace (watchdogs w)
  sole : ∀ w w' epoch, watchdogs w = .claimed epoch → watchdogs w' = .claimed epoch → w = w'

namespace Guarded

variable {watchdogs : Nat → WatchdogStage} {trace : List Event} {event : Event} {w : Nat}
  {stage : WatchdogStage}

/-- An event that is no submission for an activation that a watchdog is about to submit. -/
theorem note (h : Guarded watchdogs trace) (hsubmitted : ∀ w epoch party encoded answer,
    watchdogs w = .claimed epoch → event ≠ .submitted epoch party encoded answer) :
    Guarded watchdogs (trace ++ [event]) := by
  refine ⟨fun w => ?_, h.sole⟩
  have hok := h.guarded w
  cases hstage : watchdogs w with
  | idle | holding => trivial
  | claimed epoch =>
    rw [hstage] at hok
    refine ⟨List.mem_append_left _ hok.1, fun party encoded answer hmem => ?_⟩
    exact hok.2 party encoded answer ((mem_note (hsubmitted w _ _ _ _ hstage)).mp hmem)
  | submitted epoch outcome =>
    rw [hstage] at hok
    exact List.mem_append_left _ hok

/-- A watchdog goes to another stage; a claim that it gets is new. -/
theorem set (h : Guarded watchdogs trace) (w : Nat) (hok : WatchdogOk trace stage)
    (hnew : ∀ epoch, stage = .claimed epoch → ∀ w', w' ≠ w → watchdogs w' ≠ .claimed epoch) :
    Guarded (Function.update watchdogs w stage) trace := by
  constructor
  · intro w'
    rw [Function.update_apply]
    split
    · exact hok
    · exact h.guarded w'
  · intro w₁ w₂ epoch h₁ h₂
    by_cases hw₁ : w₁ = w
    · by_cases hw₂ : w₂ = w
      · rw [hw₁, hw₂]
      · rw [hw₁, Function.update_self] at h₁
        rw [Function.update_of_ne hw₂] at h₂
        exact absurd h₂ (hnew epoch h₁ w₂ hw₂)
    · rw [Function.update_of_ne hw₁] at h₁
      by_cases hw₂ : w₂ = w
      · rw [hw₂, Function.update_self] at h₂
        exact absurd h₁ (hnew epoch h₂ w₁ hw₁)
      · rw [Function.update_of_ne hw₂] at h₂
        exact h.sole w₁ w₂ epoch h₁ h₂

end Guarded

/-- What holds whatever the lane is doing: the flights agree with the trace, at most one completion
is retained, the watchdogs keep out of each other's way, and every event of the trace was
allowed. -/
structure Core (encode : Completion → Except ErrorView Bytes) (spare : Prop)
    (pending : List Pending)
    (flights : List Flight) (watchdogs : Nat → WatchdogStage) (trace : List Event) : Prop
    extends Flown flights trace, Retained spare pending trace, Guarded watchdogs trace where
  allowed : Justified (Allowed encode spare) trace

/-- The event is no poll, no claim and no submission. -/
def Event.Quiet : Event → Prop
  | .built _ _ | .finished _ | .removed _ _ | .discarded _ => True
  | _ => False

namespace Core

variable {encode : Completion → Except ErrorView Bytes} {spare : Prop}
  {pending pending' : List Pending}
  {flights : List Flight} {watchdogs : Nat → WatchdogStage} {trace : List Event} {epoch w : Nat}
  {event : Event} {p : Pending} {flight : Flight} {encoded : Bytes} {answer : Answer}

/-- An event that says nothing about claims and submissions; a completion is replaced
while nothing is retained. -/
theorem note (h : Core encode spare pending flights watchdogs trace) (hquiet : event.Quiet)
    (hbuilt : ∀ epoch completion, event = .built epoch completion → pending = [])
    (hallowed : Allowed encode spare trace event) :
    Core encode spare pending flights watchdogs (trace ++ [event]) := by
  have hpolled (epoch : Nat) (activation : Activation) : event ≠ .polled epoch activation := by
    rintro rfl
    exact hquiet
  have hclaimed (epoch : Nat) (party : Party) : event ≠ .claimed epoch party := by
    rintro rfl
    exact hquiet
  have hsubmitted (epoch : Nat) (party : Party) (encoded : Bytes) (answer : Answer) :
      event ≠ .submitted epoch party encoded answer := by
    rintro rfl
    exact hquiet
  refine ⟨h.toFlown.note hpolled hclaimed, h.toRetained.note (fun _ => hclaimed _ _) ?_,
    h.toGuarded.note fun _ _ _ _ _ _ => hsubmitted _ _ _ _, h.allowed.snoc hallowed⟩
  refine fun p hp howned => howned.note hpolled (fun epoch completion heq => ?_) (hsubmitted _)
  rw [hbuilt epoch completion heq] at hp
  cases hp

/-- Nothing was recorded about an activation that is yet to be polled. -/
theorem fresh (h : Core encode spare pending flights watchdogs trace)
    (hevent : ∀ before, Allowed encode spare before event →
      ∃ activation, .polled flights.length activation ∈ before) : event ∉ trace := by
  intro hmem
  obtain ⟨before, hsub, hallowed⟩ := h.allowed.of_mem hmem
  obtain ⟨activation, hpolled⟩ := hevent before hallowed
  exact Nat.lt_irrefl _ (h.epoch_lt (hsub hpolled))

/-- A new activation is polled, while nothing is retained. -/
theorem poll (h : Core encode spare [] flights watchdogs trace) (activation : Activation) :
    Core encode spare [] (flights ++ [⟨activation, none, none⟩]) watchdogs
      (trace ++ [.polled flights.length activation]) := by
  refine ⟨h.toFlown.poll activation fun party => h.fresh fun _ hallowed => hallowed.1,
    h.toRetained.note (by simp) (by simp), h.toGuarded.note (by simp), h.allowed.snoc ⟨?_, ?_⟩⟩
  · exact fun activation hmem => Nat.lt_irrefl _ (h.epoch_lt hmem)
  · exact fun epoch' hclaimed => by simpa using h.settled epoch' hclaimed

/-- Nothing was submitted for an activation that nobody has claimed. -/
theorem unsubmitted (h : Core encode spare pending flights watchdogs trace)
    (hfree : ∀ party, .claimed epoch party ∉ trace) (party : Party) (encoded : Bytes)
    (answer : Answer) : .submitted epoch party encoded answer ∉ trace :=
  fun hmem => hfree party (claimed_of_submitted h.allowed hmem)

theorem unclaimed (h : Core encode spare pending flights watchdogs trace)
    (hflight : flights[epoch]? = some flight) (hnone : flight.claim = none) (party : Party) :
    .claimed epoch party ∉ trace := by
  intro hmem
  have hclaim := ((h.flown epoch flight hflight).2 party).mpr hmem
  rw [hnone] at hclaim
  cases hclaim

theorem claim_flown (h : Core encode spare pending flights watchdogs trace)
    (hflight : flights[epoch]? = some flight) (hnone : flight.claim = none) (party : Party) :
    Flown (flights.set epoch { flight with claim := some party })
      (trace ++ [.claimed epoch party]) := by
  refine h.toFlown.set hflight _ (by simp) (fun party' => ?_) fun epoch' party' hne => by simp [hne]
  simp [h.unclaimed hflight hnone party', eq_comm]

theorem claim_allowed (h : Core encode spare pending flights watchdogs trace)
    (hflight : flights[epoch]? = some flight) (hnone : flight.claim = none) (party : Party) :
    Justified (Allowed encode spare) (trace ++ [.claimed epoch party]) :=
  h.allowed.snoc ⟨⟨_, (h.flown epoch flight hflight).1⟩, h.unclaimed hflight hnone⟩

theorem claimLane (h : Core encode spare [] flights watchdogs trace)
    (hflight : flights[epoch]? = some flight) (hnone : flight.claim = none)
    (hepoch : p.epoch = epoch) (hrun : flight.activation.runId = p.runId)
    (hnewest : Newest trace epoch) (hspares : spare → SparesRun trace epoch p.result) :
    Core encode spare [p] (flights.set epoch { flight with claim := some .lane }) watchdogs
      (trace ++ [.claimed epoch .lane]) := by
  subst hepoch
  have hnew := h.unsubmitted (h.unclaimed hflight hnone)
  refine ⟨h.claim_flown hflight hnone .lane,
    ⟨Nat.le_refl 1, fun q hq => ?_, fun epoch' hclaimed => ?_⟩,
    h.toGuarded.note (by simp), h.claim_allowed hflight hnone .lane⟩
  · obtain rfl := List.mem_singleton.mp hq
    refine ⟨by simp, ⟨_, List.mem_append_left _ (h.flown _ flight hflight).1, hrun⟩,
      hnewest.note (by simp), fun hspare => (hspares hspare).note (by simp) (by simp), ?_, ?_⟩
    · exact fun party encoded hmem => hnew party encoded .accepted (by simpa using hmem)
    · exact fun party encoded answer hmem => absurd (by simpa using hmem)
        (hnew party encoded answer)
  · by_cases hepoch : epoch' = p.epoch
    · exact .inr (by simp [hepoch])
    · refine .inl (Settled.mono ?_)
      simpa using h.settled epoch' (by simpa [hepoch] using hclaimed)

theorem claimWatchdog (h : Core encode spare pending flights watchdogs trace)
    (hflight : flights[epoch]? = some flight) (hnone : flight.claim = none) (w : Nat) :
    Core encode spare pending (flights.set epoch { flight with claim := some .watchdog })
      (Function.update watchdogs w (.claimed epoch)) (trace ++ [.claimed epoch .watchdog]) := by
  have hfree := h.unclaimed hflight hnone
  refine ⟨h.claim_flown hflight hnone .watchdog, ?_, ?_, h.claim_allowed hflight hnone .watchdog⟩
  · exact h.toRetained.note (by simp) fun p _ howned => howned.note (by simp) (by simp) (by simp)
  · have hnoted : Guarded watchdogs (trace ++ [.claimed epoch .watchdog]) :=
      h.toGuarded.note (by simp)
    refine hnoted.set w ⟨by simp, ?_⟩ fun epoch' heq w' _ hstage => ?_
    · exact fun party encoded answer hmem => h.unsubmitted hfree _ _ _ (by simpa using hmem)
    · cases heq
      have hok := h.guarded w'
      rw [hstage] at hok
      exact hfree .watchdog hok.1

/-- A watchdog goes to a stage that holds no unused claim. -/
theorem setWatchdog (h : Core encode spare pending flights watchdogs trace) (w : Nat)
    (stage : WatchdogStage) (hok : WatchdogOk trace stage)
    (hnot : ∀ epoch, stage ≠ .claimed epoch) :
    Core encode spare pending flights (Function.update watchdogs w stage) trace :=
  ⟨h.toFlown, h.toRetained, h.toGuarded.set w hok fun epoch heq => absurd heq (hnot epoch),
    h.allowed⟩

theorem publish (h : Core encode spare pending flights watchdogs trace)
    (hflight : flights[epoch]? = some flight) (outcome : Except ErrorView Unit) :
    Core encode spare pending (flights.set epoch { flight with watchdogOutcome := some outcome })
      watchdogs trace :=
  ⟨h.toFlown.set hflight _ (fun _ _ => Iff.rfl) (h.flown epoch flight hflight).2
    fun _ _ _ => Iff.rfl, h.toRetained, h.toGuarded, h.allowed⟩

theorem submitWatchdog (h : Core encode spare pending flights watchdogs trace)
    (hstage : watchdogs w = .claimed epoch) (encoded : Bytes) (answer : Answer)
    (outcome : Except ErrorView Unit) :
    Core encode spare pending flights (Function.update watchdogs w (.submitted epoch outcome))
      (trace ++ [.submitted epoch .watchdog encoded answer]) := by
  obtain ⟨hclaimed, hnew⟩ : WatchdogOk trace (.claimed epoch) := hstage ▸ h.guarded w
  have hset := h.setWatchdog w (.submitted epoch outcome) hclaimed (by simp)
  refine ⟨h.toFlown.note (by simp) (by simp), h.toRetained.note (by simp) fun p _ howned => ?_,
    hset.toGuarded.note fun w' epoch' party encoded' answer' hstage' heq => ?_,
    h.allowed.snoc ⟨hclaimed, fun party encoded' answer' hmem => absurd hmem (hnew _ _ _)⟩⟩
  · refine howned.note (by simp) (by simp) fun party encoded' answer' heq => ?_
    have hlane := howned.claimed
    rw [← (Event.submitted.inj heq).1] at hlane
    cases claimed_unique h.allowed hlane hclaimed
  · obtain ⟨rfl, -⟩ := Event.submitted.inj heq
    by_cases hw : w' = w
    · rw [hw, Function.update_self] at hstage'
      cases hstage'
    · rw [Function.update_of_ne hw] at hstage'
      exact hw (h.sole w' w epoch hstage' hstage)

theorem refuse (h : Core encode spare pending flights watchdogs trace) (runId : Bytes)
    (e : ErrorView) :
    Core encode spare (pending.map fun p =>
      if p.runId = runId then { p with retryRefusal := some e } else p) flights watchdogs
        trace := by
  refine { h with single := by simpa using h.single, owned := ?_, settled := ?_ }
  · intro p hp
    obtain ⟨q, hq, rfl⟩ := List.mem_map.mp hp
    split
    · exact (h.owned q hq).refuse e
    · exact h.owned q hq
  · intro epoch hclaimed
    refine (h.settled epoch hclaimed).imp_right fun hmem => ?_
    obtain ⟨q, hq, rfl⟩ := List.mem_map.mp hmem
    refine List.mem_map.mpr ⟨_, List.mem_map_of_mem hq, ?_⟩
    split <;> rfl

theorem submitLane (h : Core encode spare pending flights watchdogs trace) (hp : p ∈ pending)
    (hnone : p.retryRefusal = none) (hencoded : p.submission = .ok encoded)
    (hretained : Retained spare pending' (trace ++ [.submitted p.epoch .lane encoded answer])) :
    Core encode spare pending' flights watchdogs
      (trace ++ [.submitted p.epoch .lane encoded answer]) := by
  have howned := h.owned p hp
  refine ⟨h.toFlown.note (by simp) (by simp), hretained,
    h.toGuarded.note fun w epoch party encoded' answer' hstage heq => ?_,
    h.allowed.snoc ⟨howned.claimed, fun party encoded' answer' hmem => ?_⟩⟩
  · obtain ⟨rfl, -⟩ := Event.submitted.inj heq
    have hok : WatchdogOk trace (.claimed p.epoch) := hstage ▸ h.guarded w
    cases claimed_unique h.allowed howned.claimed hok.1
  · have ⟨hsame, hretry⟩ := howned.earlier party encoded' answer' hmem
    rw [hencoded] at hsame
    cases hsame
    exact ⟨rfl, hretry hnone⟩

/-- A submission fails; it stays retained, and is refused if it may not be retried. -/
theorem submit_failed (h : Core encode spare pending flights watchdogs trace) (hp : p ∈ pending)
    (hnone : p.retryRefusal = none) (hencoded : p.submission = .ok encoded)
    (hfailed : answer ≠ .accepted) {refusal : Option ErrorView}
    (hretry : refusal = none → answer.isRetryable = true) :
    Core encode spare [{ p with retryRefusal := refusal }] flights watchdogs
      (trace ++ [.submitted p.epoch .lane encoded answer]) := by
  refine h.submitLane hp hnone hencoded ⟨Nat.le_refl 1, fun q hq => ?_, fun epoch' hclaim => ?_⟩
  · obtain rfl := List.mem_singleton.mp hq
    have ⟨hclaimed, ⟨activation, hpolled, hrun⟩, hnewest, hspares, hunaccepted, hearlier⟩ :=
      h.owned p hp
    refine ⟨List.mem_append_left _ hclaimed, ⟨activation, List.mem_append_left _ hpolled, hrun⟩,
      hnewest.note (by simp), fun hspare => (hspares hspare).note (by simp) (by simp), ?_, ?_⟩
    · intro party encoded' hmem
      rcases List.mem_append.mp hmem with hmem | hmem
      · exact hunaccepted party encoded' hmem
      · simp only [List.mem_singleton, Event.submitted.injEq] at hmem
        exact hfailed hmem.2.2.2.symm
    · intro party encoded' answer' hmem
      rcases List.mem_append.mp hmem with hmem | hmem
      · exact ⟨(hearlier party encoded' answer' hmem).1, fun _ =>
          (hearlier party encoded' answer' hmem).2 hnone⟩
      · simp only [List.mem_singleton, Event.submitted.injEq] at hmem
        obtain ⟨-, -, rfl, rfl⟩ := hmem
        exact ⟨hencoded, hretry⟩
  · refine (h.settled epoch' (by simpa using hclaim)).imp Settled.mono fun hmem => ?_
    rw [h.eq_single hp] at hmem
    exact hmem

/-- A submission is accepted, and its completion is no longer retained. -/
theorem submit_accepted (h : Core encode spare pending flights watchdogs trace) (hp : p ∈ pending)
    (hnone : p.retryRefusal = none) (hencoded : p.submission = .ok encoded) :
    Core encode spare [] flights watchdogs
      (trace ++ [.submitted p.epoch .lane encoded .accepted]) := by
  refine h.submitLane hp hnone hencoded ⟨Nat.zero_le 1, nofun, fun epoch' hclaim => .inl ?_⟩
  rcases h.settled epoch' (by simpa using hclaim) with hsettled | hmem
  · exact hsettled.mono
  · rw [h.eq_single hp] at hmem
    obtain rfl : epoch' = p.epoch := by simpa using hmem
    exact .inl ⟨encoded, by simp⟩

theorem discard (h : Core encode spare pending flights watchdogs trace) :
    Core encode spare [] flights watchdogs (trace ++ [.discarded (pending.map Pending.epoch)]) := by
  have hnoted := (h.note trivial (by simp) trivial : Core encode spare pending flights watchdogs
    (trace ++ [.discarded (pending.map Pending.epoch)]))
  refine { hnoted with single := Nat.zero_le 1, owned := nofun, settled := ?_ }
  intro epoch' hclaim
  refine .inl ?_
  rcases hnoted.settled epoch' hclaim with hsettled | hmem
  · exact hsettled
  · exact .inr ⟨_, by simp, hmem⟩

end Core

/-! ## The lane

What the lane knows depends on its stage, from the poll to the withdrawal of the flight. A watchdog
runs in between, so each stage has to survive its events (`LaneOk.watch`). -/

/-- The record that the lane made for an activation: it is about the newest activation, its
submission has not been refused, and it is the replacement if one was built. -/
structure Carries (encode : Completion → Except ErrorView Bytes) (spare : Prop) (trace : List Event)
    (epoch : Nat) (p : Pending) : Prop where
  epoch_eq : p.epoch = epoch
  unrefused : p.retryRefusal = none
  run : ∃ activation, .polled epoch activation ∈ trace ∧ activation.runId = p.runId
  newest : Newest trace epoch
  spares : spare → SparesRun trace epoch p.result
  built : ∀ completion, .built epoch completion ∈ trace →
    p.submission = encodeSubmission encode completion

/-- What is known of the activation in the hands of the lane. Until the claim nothing is retained
and the lane has submitted nothing; when the lane withdraws the flight, its first attempt is
made. -/
def LaneOk (encode : Completion → Except ErrorView Bytes) (spare : Prop) (pending : List Pending)
    (inFlight : Option Nat) (trace : List Event) : LaneStage → Prop
  | .idle _ | .draining => inFlight = none
  | .executing epoch => inFlight = some epoch ∧ pending = [] ∧ .claimed epoch .lane ∉ trace ∧
      Newest trace epoch ∧ (∀ completion, .built epoch completion ∉ trace) ∧
      ∀ runId, .removed epoch runId ∉ trace
  | .claiming epoch p => inFlight = some epoch ∧ pending = [] ∧ .claimed epoch .lane ∉ trace ∧
      Carries encode spare trace epoch p
  | .waiting epoch => inFlight = some epoch ∧ pending = [] ∧ .claimed epoch .lane ∉ trace ∧
      .claimed epoch .watchdog ∈ trace
  | .submitting epoch p => inFlight = some epoch ∧ pending = [p] ∧
      Carries encode spare trace epoch p ∧ laneSubmissions epoch trace = []
  | .withdrawing epoch _ => inFlight = some epoch ∧ FirstAttempt encode trace epoch

def Event.OfWatchdog : Event → Prop
  | .claimed _ .watchdog | .submitted _ .watchdog _ _ => True
  | _ => False

section Lane

variable {encode : Completion → Except ErrorView Bytes} {spare : Prop} {trace : List Event}
  {event : Event}
  {epoch : Nat} {p : Pending}

theorem laneSubmissions_eq_nil (h : Justified (Allowed encode spare) trace)
    (hunclaimed : .claimed epoch .lane ∉ trace) : laneSubmissions epoch trace = [] := by
  refine List.eq_nil_iff_forall_not_mem.mpr ?_
  rintro ⟨encoded, answer⟩ hmem
  exact hunclaimed (claimed_of_submitted h (mem_laneSubmissions.mp hmem))

namespace Event.OfWatchdog

theorem claimed (h : event.OfWatchdog) :
    .claimed epoch .lane ∈ trace ++ [event] ↔ .claimed epoch .lane ∈ trace := by
  cases event with
  | claimed epoch' party => cases party <;> first | exact False.elim h | simp
  | submitted => simp
  | _ => exact False.elim h

theorem not_polled (h : event.OfWatchdog) (epoch : Nat) (activation : Activation) :
    event ≠ .polled epoch activation := by
  rintro rfl
  exact h

theorem not_built (h : event.OfWatchdog) (epoch : Nat) (completion : Completion) :
    event ≠ .built epoch completion := by
  rintro rfl
  exact h

theorem removed (h : event.OfWatchdog) {runId : Bytes} :
    .removed epoch runId ∈ trace ++ [event] ↔ .removed epoch runId ∈ trace := by
  cases event <;> first | exact False.elim h | simp

theorem built (h : event.OfWatchdog) {completion : Completion} :
    .built epoch completion ∈ trace ++ [event] ↔ .built epoch completion ∈ trace := by
  cases event <;> first | exact False.elim h | simp

theorem laneSubmissions (h : event.OfWatchdog) :
    laneSubmissions epoch (trace ++ [event]) = Worker.laneSubmissions epoch trace := by
  rw [laneSubmissions_snoc]
  cases event with
  | submitted epoch' party => cases party <;> first | exact False.elim h | simp
  | claimed => simp
  | _ => exact False.elim h

end Event.OfWatchdog

/-- A watchdog does not disturb what is known of the lane. -/
theorem LaneOk.watch {pending : List Pending} {inFlight : Option Nat} {stage : LaneStage}
    (h : LaneOk encode spare pending inFlight trace stage) (hevent : event.OfWatchdog) :
    LaneOk encode spare pending inFlight (trace ++ [event]) stage := by
  have hcarries : ∀ {epoch p}, Carries encode spare trace epoch p →
      Carries encode spare (trace ++ [event]) epoch p := by
    intro epoch p hp
    obtain ⟨activation, hpolled, hrun⟩ := hp.run
    exact ⟨hp.epoch_eq, hp.unrefused, ⟨activation, List.mem_append_left _ hpolled, hrun⟩,
      hp.newest.note hevent.not_polled,
      fun hspare => (hp.spares hspare).note hevent.not_polled hevent.not_built,
      fun completion hbuilt => hp.built completion (hevent.built.mp hbuilt)⟩
  cases stage with
  | idle | draining => exact h
  | executing epoch =>
    exact ⟨h.1, h.2.1, hevent.claimed.not.mpr h.2.2.1, h.2.2.2.1.note hevent.not_polled,
      fun completion => hevent.built.not.mpr (h.2.2.2.2.1 completion),
      fun runId => hevent.removed.not.mpr (h.2.2.2.2.2 runId)⟩
  | claiming epoch p => exact ⟨h.1, h.2.1, hevent.claimed.not.mpr h.2.2.1, hcarries h.2.2.2⟩
  | waiting epoch =>
    exact ⟨h.1, h.2.1, hevent.claimed.not.mpr h.2.2.1, List.mem_append_left _ h.2.2.2⟩
  | submitting epoch p => exact ⟨h.1, h.2.1, hcarries h.2.2.1, hevent.laneSubmissions.trans h.2.2.2⟩
  | withdrawing epoch returned =>
    refine ⟨h.1, ?_⟩
    simp only [FirstAttempt, hevent.claimed, hevent.built, hevent.laneSubmissions]
    exact ⟨fun hno => (h.2.1 hno).imp_left (List.mem_append_left _), h.2.2⟩

end Lane

/-- Lane and watchdogs together: what the trace, the flights and the retained completion say of each
other, and what the lane knows at its stage. -/
structure Kept (encode : Completion → Except ErrorView Bytes) (spare : Prop) (s : Adapter) :
    Prop where
  core : Core encode spare s.pending s.flights s.watchdogs s.trace
  lane : LaneOk encode spare s.pending s.inFlight s.trace s.lane

end OcamlTemporal.Worker
