import OcamlTemporal.Bridge.ClientCalls

/-!
# OcamlTemporal.Sound.ClientCalls

The registry of client calls under every interleaving of its owners' callers and of the tasks.
`Step` lists what one critical section can do; the invariants are read off it.
-/

namespace OcamlTemporal.Bridge.ClientCalls

open ClientCalls.State

/-! ## Removal

A call leaves the registry with an await that has read its outcome or with a release. What the
proofs need of `Registry::remove`, for one call or for several, is in `Removed`. -/

variable {owner call c : Nat} {outcome : Operation} {op : Op} {s s' : State}
  {registered : RegisteredCall} {slot : CallSlot}

/-- The calls `removed` have left the registry, those of them that are the owner's. Every count
falls with the number of the calls. -/
structure Removed (owner : Nat) (removed : List Nat) (s s' : State) : Prop where
  frame : ∃ calls perOwner, s' = { s with calls, perOwner }
  find? : ∀ c, s'.calls.find? c =
    if c ∈ removed then (s.calls.find? c).filter (fun r => r.owner ≠ owner) else s.calls.find? c
  counts : ∀ o, ∃ k, (s.ownCalls o).length = (s'.ownCalls o).length + k ∧
    s'.perOwner o = s.perOwner o - k
  others : ∀ o, o ≠ owner → s'.perOwner o = s.perOwner o

theorem find_cases (s : State) (owner call : Nat) :
    (∃ registered, s.calls.find? call = some registered ∧ registered.owner = owner) ∨
      ∀ registered, s.calls.find? call = some registered → registered.owner ≠ owner := by
  cases h : s.calls.find? call with
  | none => exact .inr fun _ h => nomatch h
  | some registered =>
    by_cases howner : registered.owner = owner
    · exact .inl ⟨registered, rfl, howner⟩
    · exact .inr fun r hr => by cases hr; exact howner

theorem remove_miss
    (h : ∀ registered, s.calls.find? call = some registered → registered.owner ≠ owner) :
    s.remove call (some owner) = (none, s) := by
  rw [remove]
  cases hfind : s.calls.find? call with
  | none => rfl
  | some registered => simp [Ne.symm (h registered hfind)]

theorem remove_hit (hfind : s.calls.find? call = some registered)
    (howner : registered.owner = owner) :
    s.remove call (some owner) = (some registered,
      { s with
        calls := s.calls.erase call
        perOwner := Function.update s.perOwner owner (s.perOwner owner - 1) }) := by
  rw [remove, hfind]
  simp [howner]

theorem mem_ownCalls :
    c ∈ s.ownCalls owner ↔ ∃ registered, s.calls.find? c = some registered ∧
      registered.owner = owner := by
  simp only [ownCalls, List.mem_map, List.mem_filter, decide_eq_true_eq]
  constructor
  · rintro ⟨registered, ⟨hmem, howner⟩, rfl⟩
    exact ⟨registered, Lib.Keyed.mem_iff_find?.mpr ⟨hmem, rfl⟩, howner⟩
  · rintro ⟨registered, hfind, howner⟩
    obtain ⟨hmem, hcall⟩ := Lib.Keyed.mem_iff_find?.mp hfind
    exact ⟨registered, ⟨hmem, howner⟩, hcall⟩

theorem length_ownCalls_cons {calls : List RegisteredCall}
    (hperm : s.calls.entries.Perm (registered :: calls)) (owner : Nat) :
    (s.ownCalls owner).length = (if registered.owner = owner then 1 else 0) +
      (calls.filter (·.owner = owner)).length := by
  rw [ownCalls, List.length_map, (hperm.filter _).length_eq, List.filter_cons]
  by_cases howner : registered.owner = owner <;> simp [howner, Nat.add_comm]

theorem removed_remove (s : State) (call owner : Nat) :
    Removed owner [call] s (s.remove call (some owner)).2 := by
  rcases find_cases s owner call with ⟨registered, hfind, howner⟩ | hmiss
  · rw [remove_hit hfind howner]
    refine ⟨⟨_, _, rfl⟩, fun c => ?_, fun o => ⟨if registered.owner = o then 1 else 0, ?_, ?_⟩,
      fun o ho => Function.update_of_ne ho ..⟩
    · simp only [Lib.Keyed.find?_erase, List.mem_singleton]
      split_ifs with hc
      · simp [hc, hfind, howner, Option.filter]
      · rfl
    · rw [length_ownCalls_cons (Lib.Keyed.perm_of_find? hfind) o, Nat.add_comm]
      simp only [ownCalls, List.length_map]
    · by_cases ho : o = owner
      · simp [ho, howner]
      · simp [ho, howner, Ne.symm ho]
  · rw [remove_miss hmiss]
    refine ⟨⟨_, _, rfl⟩, fun c => ?_, fun o => ⟨0, rfl, rfl⟩, fun _ _ => rfl⟩
    split_ifs with hc
    · cases hfind : s.calls.find? c with
      | none => rfl
      | some registered =>
        simp [hmiss registered (List.mem_singleton.mp hc ▸ hfind), Option.filter]
    · rfl

theorem removed_removeAll (s : State) (owner : Nat) (calls : List Nat) :
    Removed owner calls s (s.removeAll owner calls) := by
  induction calls generalizing s with
  | nil => exact ⟨⟨_, _, rfl⟩, by simp [removeAll], fun o => ⟨0, rfl, rfl⟩, fun _ _ => rfl⟩
  | cons call calls ih =>
    have hfirst := removed_remove s call owner
    have hrest := ih (s.remove call (some owner)).2
    rw [removeAll]
    refine ⟨?_, fun c => ?_, fun o => ?_,
      fun o ho => (hrest.others o ho).trans (hfirst.others o ho)⟩
    · obtain ⟨_, _, hframe⟩ := hfirst.frame
      obtain ⟨_, _, hframe'⟩ := hrest.frame
      rw [hframe', hframe]
      exact ⟨_, _, rfl⟩
    · rw [hrest.find?, hfirst.find?]
      by_cases hc : c = call
      · by_cases hmem : call ∈ calls <;> simp [hc, hmem, Option.filter_filter]
      · simp [hc]
    · obtain ⟨k, hlength, hcount⟩ := hfirst.counts o
      obtain ⟨k', hlength', hcount'⟩ := hrest.counts o
      exact ⟨k' + k, by omega, by omega⟩

theorem Removed.before {removed : List Nat} (h : Removed owner removed s s')
    (hfind : s'.calls.find? c = some registered) : s.calls.find? c = some registered := by
  rw [h.find?] at hfind
  split_ifs at hfind
  · exact (Option.filter_eq_some_iff.mp hfind).1
  · exact hfind

theorem Removed.gone {removed : List Nat} (h : Removed owner removed s s')
    (hfind : s.calls.find? c = some registered) (hgone : s'.calls.find? c = none) :
    c ∈ removed ∧ registered.owner = owner := by
  rw [h.find?, hfind] at hgone
  split_ifs at hgone with hc
  exact ⟨hc, by simpa [Option.filter] using hgone⟩

/-! ## What a step can do

`State.step` checks and then changes the state; `Step` has a constructor for each way in which it
can end, with what was checked. `step_cases` is the only proof that unfolds the step function. -/

def State.awaitsAt (s : State) (owner thread : Nat) (call : Nat) (phase : Phase) : Prop :=
  s.awaits (owner, thread) = some ⟨call, phase⟩

/-- One critical section of an operation of `owner`. Completing a call and dropping its guard are
one constructor, as the source settles a slot the same way in both. -/
inductive Step (owner : Nat) (s : State) : Op → State → Prop
  | fetch :
      Step owner s (.fetch s.nextCall)
        { s with nextCall := (s.nextCall + 1) % 2 ^ 64, fetched := (owner, s.nextCall) ::
          s.fetched }
  | refuse {call : Nat} {reserved : Bool} {failure : Failure}
      (hfetched : (owner, call) ∈ s.fetched) :
      Step owner s (.insert call reserved)
        ({ s with fetched := s.fetched.erase (owner, call) }.log owner (.refused failure))
  | insert {call : Nat} {reserved : Bool} (hfetched : (owner, call) ∈ s.fetched)
      (hcall : call < maxCallId) :
      Step owner s (.insert call reserved)
        ({ s with
          fetched := s.fetched.erase (owner, call)
          slots := Function.update s.slots call (some ⟨owner, .pending, true⟩)
          perOwner := Function.update s.perOwner owner (s.perOwner owner + 1)
          calls := s.calls.set ⟨call, owner, false⟩ }.log owner (.registered call))
  | attach {call : Nat} {registered : RegisteredCall} (hfind : s.calls.find? call = some registered)
      (howner : registered.owner = owner) :
      Step owner s (.attach call) { s with calls := s.calls.set { registered with task := true } }
  | orphan {call : Nat} : Step owner s (.attach call) (s.log owner (.aborted call))
  | publish {op : Op} {call : Nat} {outcome : Operation}
      (hop : op = .complete call outcome ∨
        ∃ panicking, op = .dropGuard call panicking ∧ outcome = .error (dropFailure panicking))
      (hslot : s.slots call = some ⟨owner, .pending, true⟩) :
      Step owner s op
        (((s.setSlot call ⟨owner, .ready outcome, false⟩).notifyAll call).log owner
          (.published call outcome))
  | disarm {op : Op} {call : Nat} {state : SlotState}
      (hop : (∃ outcome, op = .complete call outcome) ∨ ∃ panicking, op = .dropGuard call panicking)
      (hslot : s.slots call = some ⟨owner, state, true⟩) (hstate : state.isPending = false) :
      Step owner s op (s.setSlot call ⟨owner, state, false⟩)
  | find {thread call : Nat} {registered : RegisteredCall}
      (hnone : s.awaits (owner, thread) = none) (hfind : s.calls.find? call = some registered)
      (howner : registered.owner = owner) :
      Step owner s (.lookup thread call) (s.setAwait owner thread ⟨call, .holding⟩)
  | miss {thread call : Nat} (hnone : s.awaits (owner, thread) = none)
      (hfind : ∀ registered, s.calls.find? call = some registered → registered.owner ≠ owner) :
      Step owner s (.lookup thread call)
        (s.endAwait owner thread call (.error closedFailure) false)
  | elapse {thread call : Nat} {slot : CallSlot} (hawait : s.awaitsAt owner thread call .holding)
      (hslot : s.slots call = some slot) (hstate : slot.state = .pending) :
      Step owner s (.check thread true)
        (s.endAwait owner thread call (.error notReadyFailure) false)
  | block {thread call : Nat} {slot : CallSlot} (hawait : s.awaitsAt owner thread call .holding)
      (hslot : s.slots call = some slot) (hstate : slot.state = .pending) :
      Step owner s (.check thread false) (s.setAwait owner thread ⟨call, .blocked false⟩)
  | take {thread call slotOwner : Nat} {outcome : Operation} {armed elapsed : Bool}
      (hawait : s.awaitsAt owner thread call .holding)
      (hslot : s.slots call = some ⟨slotOwner, .ready outcome, armed⟩) :
      Step owner s (.check thread elapsed)
        ((s.setSlot call ⟨slotOwner, .closed, armed⟩).setAwait owner thread
          ⟨call, .terminal outcome true⟩)
  | readClosed {thread call : Nat} {slot : CallSlot} {elapsed : Bool}
      (hawait : s.awaitsAt owner thread call .holding) (hslot : s.slots call = some slot)
      (hstate : slot.state = .closed) :
      Step owner s (.check thread elapsed)
        (s.setAwait owner thread ⟨call, .terminal (.error closedFailure) false⟩)
  | wake {thread call : Nat} {notified : Bool}
      (hawait : s.awaitsAt owner thread call (.blocked notified)) :
      Step owner s (.wake thread) (s.setAwait owner thread ⟨call, .holding⟩)
  | retire {thread call : Nat} {outcome : Operation} {published : Bool}
      {calls : Lib.Keyed RegisteredCall.call} {perOwner : Nat → Nat}
      (hawait : s.awaitsAt owner thread call (.terminal outcome published))
      (hremoved : Removed owner [call] s { s with calls, perOwner }) :
      Step owner s (.retire thread)
        ({ s with calls, perOwner }.endAwait owner thread call outcome published)
  -- `release` of a registered call, or `releaseOwner`
  | release {op : Op} {thread : Nat} {closing : List Nat} {task : Option Nat}
      {calls : Lib.Keyed RegisteredCall.call} {perOwner : Nat → Nat}
      (hop : (∃ call, op = .release thread call ∧ closing = [call]) ∨
        op = .releaseOwner thread closing ∧ closing.Perm (s.ownCalls owner) ∧ task = none)
      (hnone : s.releases (owner, thread) = none)
      (hown : ∀ c ∈ closing, ∃ registered, s.calls.find? c = some registered ∧
        registered.owner = owner)
      (hremoved : Removed owner closing s { s with calls, perOwner }) :
      Step owner s op ({ s with calls, perOwner }.setRelease owner thread (some ⟨closing, task⟩))
  | releaseMiss {thread call : Nat}
      (hfind : ∀ registered, s.calls.find? call = some registered → registered.owner ≠ owner) :
      Step owner s (.release thread call) (s.log owner (.released thread))
  | close {thread call : Nat} {rest : List Nat} {task : Option Nat} {slot : CallSlot}
      (hrelease : s.releases (owner, thread) = some ⟨call :: rest, task⟩)
      (hslot : s.slots call = some slot) (hpending : slot.state = .pending) :
      Step owner s (.close thread)
        (((s.setSlot call { slot with state := .closed }).notifyAll call).setRelease owner thread
          (some ⟨rest, task⟩))
  | pass {thread call : Nat} {rest : List Nat} {task : Option Nat} {slot : CallSlot}
      (hrelease : s.releases (owner, thread) = some ⟨call :: rest, task⟩)
      (hslot : s.slots call = some slot) (hsettled : slot.state.isPending = false) :
      Step owner s (.close thread) (s.setRelease owner thread (some ⟨rest, task⟩))
  | finish {thread : Nat} {task : Option Nat} {events : List (Nat × Event)}
      (hrelease : s.releases (owner, thread) = some ⟨[], task⟩)
      (hevents : ∀ e ∈ events, e.1 = owner ∧
        (e.2 = .released thread ∨ ∃ call, e.2 = .aborted call)) :
      Step owner s (.close thread)
        { s.setRelease owner thread none with trace := s.trace ++ events }
  | count : Step owner s .registeredCalls (s.log owner (.counted (s.perOwner owner)))
  | list {calls calls' : List Nat} :
      Step owner s (.unregisteredCalls calls) (s.log owner (.unregistered calls'))

theorem settle_cases (h : s.settle owner call outcome = some s')
    (hop : op = .complete call outcome ∨ ∃ panicking, op = .dropGuard call panicking ∧
      outcome = .error (dropFailure panicking)) :
    Step owner s op s' := by
  rw [settle] at h
  split at h
  · rename_i slot hslot
    obtain ⟨slotOwner, state, armed⟩ := slot
    split_ifs at h with hguard hpending
    · obtain ⟨rfl, rfl⟩ := hguard
      cases h
      cases state with
      | pending => exact .publish hop hslot
      | _ => exact nomatch hpending
    · obtain ⟨rfl, rfl⟩ := hguard
      cases h
      refine .disarm ?_ hslot (by simpa using hpending)
      rcases hop with hop | ⟨panicking, hop, -⟩
      · exact .inl ⟨outcome, hop⟩
      · exact .inr ⟨panicking, hop⟩
  · exact nomatch h

theorem lookup_cases {thread call : Nat} (h : State.step (owner, .lookup thread call) s = some s') :
    Step owner s (.lookup thread call) s' := by
  simp only [State.step] at h
  split_ifs at h with hsome
  have hnone : s.awaits (owner, thread) = none := by simpa using hsome
  rcases find_cases s owner call with ⟨registered, hfind, howner⟩ | hmiss
  · rw [hfind] at h
    simp only [if_pos howner] at h
    cases h
    exact .find hnone hfind howner
  · cases hfind : s.calls.find? call with
    | none =>
      rw [hfind] at h
      cases h
      exact .miss hnone hmiss
    | some registered =>
      rw [hfind] at h
      simp only [if_neg (hmiss registered hfind)] at h
      cases h
      exact .miss hnone hmiss

theorem check_cases {thread : Nat} {elapsed : Bool}
    (h : State.step (owner, .check thread elapsed) s = some s') :
    Step owner s (.check thread elapsed) s' := by
  simp only [State.step] at h
  split at h
  · rename_i call hawait
    split at h
    · rename_i hslot
      split_ifs at h with helapsed
      · cases h
        subst helapsed
        exact .elapse hawait hslot rfl
      · cases h
        rw [Bool.not_eq_true] at helapsed
        subst helapsed
        exact .block hawait hslot rfl
    · rename_i hslot
      cases h
      exact .take hawait hslot
    · rename_i hslot
      cases h
      exact .readClosed hawait hslot rfl
    · cases h
  · cases h

theorem release_cases {thread call : Nat}
    (h : State.step (owner, .release thread call) s = some s') :
    Step owner s (.release thread call) s' := by
  simp only [State.step] at h
  split_ifs at h with hsome
  have hnone : s.releases (owner, thread) = none := by simpa using hsome
  rcases find_cases s owner call with ⟨registered, hfind, howner⟩ | hmiss
  · have hremoved := removed_remove s call owner
    rw [remove_hit hfind howner] at h hremoved
    cases h
    refine .release (.inl ⟨call, rfl, rfl⟩) hnone (fun c hc => ?_) hremoved
    rw [List.mem_singleton.mp hc]
    exact ⟨registered, hfind, howner⟩
  · rw [remove_miss hmiss] at h
    cases h
    exact .releaseMiss hmiss

theorem close_cases {thread : Nat} (h : State.step (owner, .close thread) s = some s') :
    Step owner s (.close thread) s' := by
  simp only [State.step] at h
  split at h
  · rename_i hrelease
    split at h
    · rename_i slot hslot
      cases h
      rw [closeSlot]
      split_ifs with hpending
      · refine .close hrelease hslot ?_
        cases hstate : slot.state with
        | pending => rfl
        | _ =>
          rw [hstate] at hpending
          cases hpending
      · exact .pass hrelease hslot (by simpa using hpending)
    · cases h
  · rename_i hrelease
    cases h
    exact .finish hrelease (by simp)
  · rename_i call hrelease
    cases h
    have hstep : Step owner s (.close thread) { s.setRelease owner thread none with
        trace := s.trace ++ [(owner, .aborted call), (owner, .released thread)] } :=
      .finish hrelease (by simp)
    simpa [State.log, State.setRelease] using hstep
  · cases h

/-- **Every step is one of the cases of `Step`**, guards included. -/
theorem step_cases (h : State.step (owner, op) s = some s') : Step owner s op s' := by
  cases op with
  | fetch call =>
    simp only [State.step] at h
    split_ifs at h with hcall
    subst hcall
    cases h
    exact .fetch
  | insert call reserved =>
    simp only [State.step] at h
    split_ifs at h with hfetched hmax hreserved
    · cases h
      exact .refuse hfetched
    · cases h
      exact .insert hfetched (Nat.lt_of_not_ge hmax)
    · cases h
      exact .refuse hfetched
  | attach call =>
    simp only [State.step] at h
    split at h
    · rename_i registered hfind
      split_ifs at h with howner
      · cases h
        exact .attach hfind howner
      · cases h
        exact .orphan
    · cases h
      exact .orphan
  | complete call outcome => exact settle_cases h (.inl rfl)
  | dropGuard call panicking => exact settle_cases h (.inr ⟨panicking, rfl, rfl⟩)
  | lookup thread call => exact lookup_cases h
  | check thread elapsed => exact check_cases h
  | wake thread =>
    simp only [State.step] at h
    split at h
    · rename_i hawait
      cases h
      exact .wake hawait
    · cases h
  | retire thread =>
    simp only [State.step] at h
    split at h
    · rename_i call outcome published hawait
      have hremoved := removed_remove s call owner
      obtain ⟨_, _, hframe⟩ := hremoved.frame
      cases h
      rw [hframe] at hremoved ⊢
      exact .retire hawait hremoved
    · cases h
  | release thread call => exact release_cases h
  | releaseOwner thread calls =>
    simp only [State.step] at h
    split_ifs at h with hguard
    rw [not_or, not_not] at hguard
    have hremoved := removed_removeAll s owner calls
    obtain ⟨_, _, hframe⟩ := hremoved.frame
    cases h
    rw [hframe] at hremoved ⊢
    exact .release (.inr ⟨rfl, hguard.2, rfl⟩) (by simpa using hguard.1)
      (fun c hc => mem_ownCalls.mp (hguard.2.mem_iff.mp hc)) hremoved
  | close thread => exact close_cases h
  | registeredCalls =>
    cases h
    exact .count
  | unregisteredCalls calls =>
    cases h
    exact .list

/-! ## Identifiers

The counter wraps around at the word size, far beyond the bound that `register` checks. Below the
bound an identifier that is fetched has no slot, and no two threads have fetched the same one. -/

/-- Identifiers are taken once: those fetched and not yet inserted are below the counter, distinct
and without a slot. -/
structure Fresh (s : State) : Prop where
  few : s.nextCall ≤ maxCallId
  fetched : ∀ p ∈ s.fetched, p.2 < s.nextCall ∧ s.slots p.2 = none
  nodup : (s.fetched.map Prod.snd).Nodup
  slots : ∀ c slot, s.slots c = some slot → c < s.nextCall

/-- Slots of other calls come and go with `insert` only. -/
theorem Step.slots_none (h : Step owner s op s') :
    (∃ call, (owner, call) ∈ s.fetched ∧ s'.fetched = s.fetched.erase (owner, call) ∧
        s'.slots = Function.update s.slots call (some ⟨owner, .pending, true⟩) ∧
        s'.calls.find? call = some ⟨call, owner, false⟩) ∨
      ∀ c, s'.slots c = none ↔ s.slots c = none := by
  cases h with
  | insert hfetched => exact .inl ⟨_, hfetched, rfl, rfl, by simp [State.log, Lib.Keyed.find?_set]⟩
  | publish _ hslot | disarm _ hslot | take _ hslot | close _ hslot =>
    refine .inr fun c => ?_
    simp only [State.log, State.notifyAll, State.setSlot, State.setAwait, State.setRelease,
      Function.update_apply]
    split_ifs with hc <;> simp [hc, hslot]
  | _ => exact .inr fun c => Iff.rfl

theorem Step.fetched_cases (h : Step owner s op s') :
    (s'.nextCall = (s.nextCall + 1) % 2 ^ 64 ∧ s'.fetched = (owner, s.nextCall) :: s.fetched) ∨
      s'.nextCall = s.nextCall ∧ s'.fetched ⊆ s.fetched ∧ s'.fetched.Sublist s.fetched := by
  cases h with
  | fetch => exact .inl ⟨rfl, rfl⟩
  | refuse | insert => exact .inr ⟨rfl, List.erase_subset, List.erase_sublist⟩
  | _ => exact .inr ⟨rfl, List.Subset.refl _, List.Sublist.refl _⟩

theorem Fresh.step (hs : Fresh s) (hfew : s.nextCall < maxCallId) (h : Step owner s op s') :
    Fresh s' := by
  have hmax : maxCallId < 2 ^ 64 := by decide
  rcases h.fetched_cases with ⟨hnext, hfetched⟩ | ⟨hnext, hsubset, hsublist⟩
  · -- `fetch`: the next identifier is new
    have hmod : (s.nextCall + 1) % 2 ^ 64 = s.nextCall + 1 := Nat.mod_eq_of_lt (by omega)
    have hslots : ∀ c, s'.slots c = none ↔ s.slots c = none := by
      refine h.slots_none.resolve_left ?_
      rintro ⟨call, -, herase, -⟩
      have hlength := congrArg List.length (hfetched.symm.trans herase)
      have := List.length_erase_le (a := (owner, call)) (l := s.fetched)
      simp only [List.length_cons] at hlength
      omega
    have hnone : s.slots s.nextCall = none := by
      by_contra hsome
      obtain ⟨slot, hslot⟩ := Option.ne_none_iff_exists'.mp hsome
      exact absurd (hs.slots _ slot hslot) (Nat.lt_irrefl _)
    rw [hmod] at hnext
    refine ⟨by omega, ?_, ?_, fun c slot hslot => ?_⟩
    · intro p hp
      rw [hfetched] at hp
      rcases List.mem_cons.mp hp with rfl | hp
      · exact ⟨by simp [hnext], (hslots _).mpr hnone⟩
      · obtain ⟨hlt, hslot⟩ := hs.fetched p hp
        exact ⟨by omega, (hslots _).mpr hslot⟩
    · rw [hfetched, List.map_cons, List.nodup_cons]
      refine ⟨fun hmem => ?_, hs.nodup⟩
      obtain ⟨p, hp, heq⟩ := List.mem_map.mp hmem
      exact absurd (hs.fetched p hp).1 (by rw [heq]; exact Nat.lt_irrefl _)
    · obtain ⟨slot', hslot'⟩ := Option.ne_none_iff_exists'.mp
        fun hnone => nomatch ((hslots c).mpr hnone).symm.trans hslot
      have := hs.slots c slot' hslot'
      omega
  · refine ⟨hnext ▸ hs.few, fun p hp => ?_, hs.nodup.sublist (hsublist.map _),
      fun c slot hslot => ?_⟩
    · obtain ⟨hlt, hnone⟩ := hs.fetched p (hsubset hp)
      refine ⟨hnext ▸ hlt, ?_⟩
      rcases h.slots_none with ⟨call, hmem, herase, hslots, -⟩ | hslots
      · rw [hslots, Function.update_of_ne, hnone]
        -- the identifier that was inserted is not fetched any more
        intro heq
        have hnodup : s.fetched.Nodup := hs.nodup.of_map
        have hp' : p ∈ s.fetched ∧ p ≠ (owner, call) := by
          rw [herase, hnodup.mem_erase_iff] at hp
          exact hp.symm
        exact hp'.2 (List.inj_on_of_nodup_map hs.nodup hp'.1 hmem heq)
      · exact (hslots _).mpr hnone
    · rw [hnext]
      rcases h.slots_none with ⟨call, hmem, -, hslots, -⟩ | hslots
      · by_cases hc : c = call
        · exact hc ▸ (hs.fetched _ hmem).1
        · rw [hslots, Function.update_of_ne hc] at hslot
          exact hs.slots c slot hslot
      · obtain ⟨slot', hslot'⟩ := Option.ne_none_iff_exists'.mp
          fun hnone => nomatch ((hslots c).mpr hnone).symm.trans hslot
        exact hs.slots c slot' hslot'

/-! ## Slots

A slot is never removed from the model. It is settled once, by its task or by a release, and closed
by the await that takes its outcome. -/

/-- What a step can do to a slot. Every step leaves the owner, and moves the state and the guard of
the task in one direction only. -/
structure Later (slot slot' : CallSlot) : Prop where
  owner : slot'.owner = slot.owner
  disarmed : slot.armed = false → slot'.armed = false
  settled : slot.state.isPending = false → slot'.state.isPending = false
  closed : slot.state = .closed → slot'.state = .closed
  published : slot.armed = true → slot'.armed = false → slot'.state.isPending = false

theorem Later.refl (slot : CallSlot) : Later slot slot :=
  ⟨rfl, id, id, id, fun h h' => nomatch h.symm.trans h'⟩

theorem Step.slot_later (hs : Fresh s) (h : Step owner s op s') (hslot : s.slots c = some slot) :
    ∃ slot', s'.slots c = some slot' ∧ Later slot slot' := by
  cases h with
  | insert hfetched =>
    have hnone := (hs.fetched _ hfetched).2
    simp only [State.log, Function.update_apply]
    grind [Later.refl]
  | publish | disarm | take | close =>
    simp only [State.log, State.notifyAll, State.setSlot, State.setAwait, State.setRelease,
      Function.update_apply]
    split_ifs with hc
    · exact ⟨_, rfl, by constructor <;> grind [SlotState.isPending]⟩
    · exact ⟨slot, hslot, .refl slot⟩
  | _ => exact ⟨slot, hslot, .refl slot⟩

def State.owns (s : State) (owner call : Nat) : Prop :=
  ∃ slot, s.slots call = some slot ∧ slot.owner = owner

theorem Step.owns (hs : Fresh s) (h : Step owner s op s') {o : Nat} (howns : s.owns o c) :
    s'.owns o c := by
  obtain ⟨slot, hslot, rfl⟩ := howns
  obtain ⟨slot', hslot', hlater⟩ := h.slot_later hs hslot
  exact ⟨slot', hslot', hlater.owner⟩

/-- Registered calls, awaits and releases are about slots of their owners. -/
structure Owned (s : State) : Prop where
  calls : ∀ c registered, s.calls.find? c = some registered → s.owns registered.owner c
  awaits : ∀ owner thread a, s.awaits (owner, thread) = some a → s.owns owner a.call
  releases : ∀ owner thread r, s.releases (owner, thread) = some r →
    ∀ c ∈ r.closing, s.owns owner c

/-- A call that is found after a step was found before it, or has been inserted. -/
theorem Step.find?_cases (h : Step owner s op s') (hfind : s'.calls.find? c = some registered) :
    (∃ before, s.calls.find? c = some before ∧ before.owner = registered.owner) ∨
      (∃ reserved, op = .insert c reserved) ∧ (owner, c) ∈ s.fetched ∧
        registered = ⟨c, owner, false⟩ ∧ s'.slots c = some ⟨owner, .pending, true⟩ := by
  cases h with
  | @insert call reserved hfetched =>
    simp only [State.log, Lib.Keyed.find?_set] at hfind
    split_ifs at hfind with hc
    · subst hc
      cases hfind
      exact .inr ⟨⟨reserved, rfl⟩, hfetched, rfl, by simp [State.log]⟩
    · exact .inl ⟨registered, hfind, rfl⟩
  | @attach call before hbefore howner =>
    simp only [Lib.Keyed.find?_set] at hfind
    have hcall : before.call = call := (Lib.Keyed.mem_iff_find?.mp hbefore).2
    split_ifs at hfind with hc
    · subst hc
      cases hfind
      exact .inl ⟨before, by rw [hcall, hbefore], rfl⟩
    · exact .inl ⟨registered, hfind, rfl⟩
  | retire _ hremoved | release _ _ _ hremoved =>
    exact .inl ⟨registered, hremoved.before hfind, rfl⟩
  | _ => exact .inl ⟨registered, hfind, rfl⟩

/-- An await after a step: it is the thread's own step that moved it, a notification marked
it, or it is as before. -/
theorem Step.awaits_cases (h : Step owner s op s') (key : Nat × Nat) :
    s'.awaits key = s.awaits key ∨
      (∃ call, s'.awaits key = (s.awaits key).map (Await.notify call)) ∨
      key.1 = owner ∧ (s'.awaits key = none ∨
        ∃ call phase, s'.awaits key = some ⟨call, phase⟩ ∧
          ((∃ phase, s.awaits key = some ⟨call, phase⟩) ∨
            ∃ registered, s.calls.find? call = some registered ∧ registered.owner = owner)) := by
  cases h with
  | publish | close => exact .inr (.inl ⟨_, rfl⟩)
  | find | miss | elapse | block | take | readClosed | wake | retire =>
    simp only [State.endAwait, State.log, State.setAwait, State.setSlot, Function.update_apply]
    grind [State.awaitsAt]
  | _ => exact .inl rfl

theorem notify_call (call : Nat) (a : Await) : (a.notify call).call = a.call := by
  rw [Await.notify]
  split
  · split_ifs <;> rfl
  · rfl

theorem Step.releases_cases (h : Step owner s op s') (key : Nat × Nat) :
    s'.releases key = s.releases key ∨
      key.1 = owner ∧ ∀ r, s'.releases key = some r → ∀ c ∈ r.closing,
        (∃ before, s.releases key = some before ∧ c ∈ before.closing) ∨
          ∃ registered, s.calls.find? c = some registered ∧ registered.owner = owner := by
  cases h with
  | release | close | pass | finish =>
    simp only [State.notifyAll, State.setSlot, State.setRelease, Function.update_apply]
    grind
  | _ => exact .inl rfl

theorem Owned.step (hfresh : Fresh s) (hs : Owned s) (h : Step owner s op s') : Owned s' := by
  have hregistered : ∀ c, (∃ registered, s.calls.find? c = some registered ∧
      registered.owner = owner) → s'.owns owner c := by
    rintro c ⟨registered, hfind, rfl⟩
    exact h.owns hfresh (hs.calls c registered hfind)
  refine ⟨fun c registered hfind => ?_, fun o thread a ha => ?_, fun o thread r hr c hc => ?_⟩
  · rcases h.find?_cases hfind with ⟨before, hbefore, howner⟩ | ⟨-, -, rfl, hslot⟩
    · exact howner ▸ h.owns hfresh (hs.calls c before hbefore)
    · exact ⟨_, hslot, rfl⟩
  · rcases h.awaits_cases (o, thread) with hsame | ⟨call, hmap⟩ | ⟨rfl, hnone | hset⟩
    · exact h.owns hfresh (hs.awaits o thread a (hsame ▸ ha))
    · rw [hmap, Option.map_eq_some_iff] at ha
      obtain ⟨before, hbefore, rfl⟩ := ha
      rw [notify_call]
      exact h.owns hfresh (hs.awaits o thread before hbefore)
    · exact nomatch hnone.symm.trans ha
    · obtain ⟨call, phase, hset, ⟨before, hbefore⟩ | hfind⟩ := hset
      · cases hset.symm.trans ha
        exact h.owns hfresh (hs.awaits o thread ⟨call, before⟩ hbefore)
      · cases hset.symm.trans ha
        exact hregistered call hfind
  · rcases h.releases_cases (o, thread) with hsame | ⟨rfl, hset⟩
    · exact h.owns hfresh (hs.releases o thread r (hsame ▸ hr) c hc)
    · rcases hset r hr c hc with ⟨before, hbefore, hmem⟩ | hfind
      · exact h.owns hfresh (hs.releases o thread before hbefore c hmem)
      · exact hregistered c hfind

/-! ## Counts

`per_owner` is changed by registrations and removals only, each time with the map. -/

def Counted (s : State) : Prop := ∀ owner, s.perOwner owner = (s.ownCalls owner).length

theorem Counted.removed {removed : List Nat} (hs : Counted s) (h : Removed owner removed s s') :
    Counted s' := by
  intro o
  obtain ⟨k, hlength, hcount⟩ := h.counts o
  have := hs o
  omega

theorem Counted.step (hfresh : Fresh s) (howned : Owned s) (hs : Counted s)
    (h : Step owner s op s') :
    Counted s' := by
  cases h with
  | @insert call reserved hfetched =>
    have hnone : s.calls.find? call = none := by
      by_contra hsome
      obtain ⟨registered, hfind⟩ := Option.ne_none_iff_exists'.mp hsome
      obtain ⟨slot, hslot, -⟩ := howned.calls call registered hfind
      exact nomatch (hfresh.fetched _ hfetched).2.symm.trans hslot
    intro o
    have hcount := hs o
    simp only [State.log, ownCalls, Lib.Keyed.entries_set, List.length_map, Function.update_apply,
      Lib.Keyed.erase_of_find?_eq_none hnone, List.filter_cons] at hcount ⊢
    by_cases ho : o = owner
    · subst ho
      simp [hcount]
    · simp [ho, Ne.symm ho, hcount]
  | @attach call registered hfind howner =>
    intro o
    have hlength := length_ownCalls_cons (Lib.Keyed.perm_of_find? hfind) o
    have hcall : registered.call = call := (Lib.Keyed.mem_iff_find?.mp hfind).2
    have hcount := hs o
    simp only [ownCalls, List.length_map, Lib.Keyed.entries_set, List.filter_cons,
      hcall] at hcount ⊢
    by_cases ho : registered.owner = o
    · simp only [ho, decide_true, if_true, List.length_cons] at hlength ⊢
      rw [hs o, hlength, Nat.add_comm]
    · simp only [ho, decide_false, if_false, Bool.false_eq_true] at hlength ⊢
      rw [hs o, hlength, Nat.zero_add]
  | retire _ hremoved | release _ _ _ hremoved => exact (hs.removed hremoved :)
  | _ => exact hs

/-! ## Waiters

A lost wakeup would be an await that sleeps on a slot which nobody will notify again. An await goes
to sleep in the critical section that has found its slot pending, and every step that settles a slot
notifies its waiters. -/

/-- A waiter of a slot that is no longer pending has been notified, and a disarmed slot is not
pending. -/
structure Woken (s : State) : Prop where
  notified : ∀ key c slot n, s.awaits key = some ⟨c, .blocked n⟩ → s.slots c = some slot →
    slot.state.isPending = false → n = true
  disarmed : ∀ c slot, s.slots c = some slot → slot.armed = false → slot.state.isPending = false

theorem notify_eq_blocked {n : Bool} {a : Await} (h : a.notify call = ⟨c, .blocked n⟩) :
    (c = call → n = true) ∧ (c ≠ call → a = ⟨c, .blocked n⟩) := by
  obtain ⟨c', phase⟩ := a
  cases phase with
  | blocked m =>
    simp only [Await.notify] at h
    split_ifs at h with hcall
    · cases h
      exact ⟨fun _ => rfl, fun hne => absurd hcall hne⟩
    · cases h
      exact ⟨fun heq => absurd heq hcall, fun _ => rfl⟩
  | _ => exact nomatch h

theorem notify_eq_terminal {published : Bool} {a : Await} :
    a.notify call = ⟨c, .terminal outcome published⟩ ↔ a = ⟨c, .terminal outcome published⟩ := by
  obtain ⟨c', phase⟩ := a
  cases phase with
  | blocked n =>
    simp only [Await.notify]
    split_ifs <;> simp
  | _ => rfl

/-- What a slot was: it was there unless this step inserted it, and only `publish` and `close`
settle it. -/
theorem Step.slot_before (h : Step owner s op s') {slot' : CallSlot}
    (hslot : s'.slots c = some slot') (hstate : slot'.state.isPending = false) :
    (∃ slot, s.slots c = some slot ∧ slot.state.isPending = false) ∨
      ∃ slot, s.slots c = some slot ∧ s'.awaits = fun key =>
        (s.awaits key).map (Await.notify c) := by
  cases h with
  | insert | publish | disarm | take | close =>
    simp only [State.log, State.notifyAll, State.setSlot, State.setAwait, State.setRelease,
      Function.update_apply] at hslot ⊢
    grind [SlotState.isPending]
  | _ => exact .inl ⟨slot', hslot, hstate⟩

/-- A waiter was waiting before the step, or its slot was pending when it went to sleep. -/
theorem Step.blocked_before (h : Step owner s op s') {key : Nat × Nat} {n : Bool}
    (hawait : s'.awaits key = some ⟨c, .blocked n⟩) :
    n = true ∨ s.awaits key = some ⟨c, .blocked n⟩ ∨
      s'.slots = s.slots ∧ ∃ slot, s.slots c = some slot ∧ slot.state = .pending := by
  have hnotify : ∀ call, (s.awaits key).map (Await.notify call) = some ⟨c, .blocked n⟩ →
      n = true ∨ s.awaits key = some ⟨c, .blocked n⟩ := by
    intro call hmap
    obtain ⟨a, ha, hnotify⟩ := Option.map_eq_some_iff.mp hmap
    obtain ⟨heq, hne⟩ := notify_eq_blocked hnotify
    by_cases hc : c = call
    · exact .inl (heq hc)
    · exact .inr (by rw [ha, hne hc])
  cases h with
  | publish | close => exact (hnotify _ hawait).imp_right .inl
  | find | miss | elapse | block | take | readClosed | wake | retire =>
    simp only [State.endAwait, State.log, State.setAwait, State.setSlot,
      Function.update_apply] at hawait ⊢
    grind
  | _ => exact .inr (.inl hawait)

theorem Woken.step (hfresh : Fresh s) (hs : Woken s) (h : Step owner s op s') : Woken s' := by
  refine ⟨fun key c slot' n hawait hslot hstate => ?_, fun c slot' hslot harmed => ?_⟩
  · rcases h.blocked_before hawait with hn | hbefore | ⟨hslots, slot, hpending, hstate'⟩
    · exact hn
    · rcases h.slot_before hslot hstate with ⟨slot, hslot, hstate⟩ | ⟨slot, -, hawaits⟩
      · exact hs.notified key c slot n hbefore hslot hstate
      · simp only [hawaits, hbefore, Option.map_some] at hawait
        exact (notify_eq_blocked (Option.some.inj hawait)).1 rfl
    · rw [hslots] at hslot
      cases hpending.symm.trans hslot
      rw [hstate'] at hstate
      exact nomatch hstate
  · cases hbefore : s.slots c with
    | some slot =>
      obtain ⟨later, hlater, hmoves⟩ := h.slot_later hfresh hbefore
      cases hlater.symm.trans hslot
      by_cases harmed' : slot.armed = false
      · exact hmoves.settled (hs.disarmed c slot hbefore harmed')
      · exact hmoves.published (by simpa using harmed') harmed
    | none =>
      rcases h.slots_none with ⟨call, -, -, hslots, -⟩ | hslots
      · rw [hslots, Function.update_apply] at hslot
        split_ifs at hslot
        · cases hslot
          exact nomatch harmed
        · exact nomatch hbefore.symm.trans hslot
      · exact nomatch ((hslots c).mpr hbefore).symm.trans hslot

/-! ## Reads

Taking an outcome closes the slot in the same critical section, so a second await finds it closed.
Between that and its return the outcome is in the await alone. -/

/-- The read of a published outcome that has been returned. -/
def delivers (call : Nat) : Nat × Event → Bool
  | (_, .returned _ c _ true) => c = call
  | _ => false

def State.delivered (s : State) (call : Nat) : Nat := s.trace.countP (delivers call)

/-- A terminal await after a step: it was terminal, or it has just read the slot. -/
theorem Step.terminal_before (h : Step owner s op s') {key : Nat × Nat} {published : Bool}
    (hawait : s'.awaits key = some ⟨c, .terminal outcome published⟩) :
    s.awaits key = some ⟨c, .terminal outcome published⟩ ∨
      (key.1 = owner ∧ s.awaits key = some ⟨c, .holding⟩) ∧ s'.trace = s.trace ∧
        (∃ slot, s'.slots c = some slot ∧ slot.state = .closed) ∧
        (∀ key', key' ≠ key → s'.awaits key' = s.awaits key') ∧
        (published = true ∧ (∃ slotOwner armed,
            s.slots c = some ⟨slotOwner, .ready outcome, armed⟩) ∨
          published = false ∧ outcome = .error closedFailure) := by
  have hnotify : ∀ call, (s.awaits key).map (Await.notify call) =
      some ⟨c, .terminal outcome published⟩ →
      s.awaits key = some ⟨c, .terminal outcome published⟩ := by
    intro call hmap
    obtain ⟨a, ha, hnotify⟩ := Option.map_eq_some_iff.mp hmap
    rw [ha, notify_eq_terminal.mp hnotify]
  cases h with
  | publish | close => exact .inl (hnotify _ hawait)
  | @take thread call slotOwner outcome' armed elapsed hholding hslot =>
    by_cases hkey : key = (owner, thread)
    · subst hkey
      simp only [State.setAwait, Function.update_self] at hawait
      cases hawait
      refine .inr ⟨⟨rfl, hholding⟩, rfl, ⟨⟨slotOwner, .closed, armed⟩, ?_, rfl⟩, fun key' hne => ?_,
        .inl ⟨rfl, slotOwner, armed, hslot⟩⟩
      · simp [State.setAwait, State.setSlot]
      · simp [State.setAwait, State.setSlot, hne]
    · simp only [State.setAwait, State.setSlot, Function.update_of_ne hkey] at hawait
      exact .inl hawait
  | find | miss | elapse | block | readClosed | wake | retire =>
    simp only [State.endAwait, State.log, State.setAwait, Function.update_apply] at hawait ⊢
    grind [State.awaitsAt]
  | _ => exact .inl hawait

/-- What the trace gains: a return is the end of an await, a publication the end of a task. -/
theorem Step.trace_cases (h : Step owner s op s') :
    ∃ events, s'.trace = s.trace ++ events ∧ (∀ e ∈ events, e.1 = owner) ∧
      ((∀ e ∈ events, ∀ thread call result published,
          e.2 ≠ .returned thread call result published) ∨
        ∃ thread call result published, events = [(owner, .returned thread call result published)] ∧
          s'.awaits (owner, thread) = none ∧ s'.slots = s.slots ∧
          (∀ key, key ≠ (owner, thread) → s'.awaits key = s.awaits key) ∧
          (s.awaits (owner, thread) = some ⟨call, .terminal result published⟩ ∨
            published = false ∧
              (result = .error closedFailure ∨ result = .error notReadyFailure))) := by
  cases h with
  | @miss thread call | @elapse thread call =>
    exact ⟨_, rfl, by simp, .inr ⟨thread, call, _, _, rfl, Function.update_self .., rfl,
      fun key hkey => Function.update_of_ne hkey .., .inr ⟨rfl, by simp⟩⟩⟩
  | @retire thread call outcome published _ _ hawait =>
    exact ⟨_, rfl, by simp, .inr ⟨thread, call, _, _, rfl, Function.update_self .., rfl,
      fun key hkey => Function.update_of_ne hkey .., .inl hawait⟩⟩
  | @finish thread task events _ hevents =>
    refine ⟨events, rfl, fun e he => (hevents e he).1, .inl fun e he => ?_⟩
    rcases (hevents e he).2 with h | ⟨call, h⟩ <;> simp [h]
  | refuse | insert | orphan | publish | releaseMiss | count | list =>
    exact ⟨[_], rfl, by simp, .inl (by simp)⟩
  | _ => exact ⟨[], (List.append_nil _).symm, by simp, .inl (by simp)⟩

/-- A published outcome is read by at most one await. -/
structure Once (s : State) : Prop where
  terminal : ∀ key c outcome published, s.awaits key = some ⟨c, .terminal outcome published⟩ →
    ∃ slot, s.slots c = some slot ∧ slot.state = .closed
  unread : ∀ c, (∀ slot, s.slots c = some slot → slot.state ≠ .closed) →
    s.delivered c = 0 ∧ ∀ key outcome, s.awaits key ≠ some ⟨c, .terminal outcome true⟩
  reading : ∀ key c outcome, s.awaits key = some ⟨c, .terminal outcome true⟩ →
    s.delivered c = 0 ∧
      ∀ key' outcome', s.awaits key' = some ⟨c, .terminal outcome' true⟩ → key' = key
  once : ∀ c, s.delivered c ≤ 1

/-- A delivery is the end of an await that had read the outcome. -/
theorem Step.delivered_cases (h : Step owner s op s') (c : Nat) :
    s'.delivered c = s.delivered c ∨
      s'.delivered c = s.delivered c + 1 ∧ ∃ key outcome,
        s.awaits key = some ⟨c, .terminal outcome true⟩ ∧ s'.awaits key = none := by
  obtain ⟨events, htrace, -, hnone | ⟨thread, call, result, published, rfl, hend, -, -, hsource⟩⟩ :=
    h.trace_cases
  · refine .inl ?_
    have hevents : events.countP (delivers c) = 0 := by
      refine List.countP_eq_zero.mpr fun e he => ?_
      rcases e with ⟨o, e⟩
      cases e with
      | returned thread call result published =>
        exact absurd rfl (hnone _ he thread call result published)
      | _ => simp [delivers]
    rw [State.delivered, State.delivered, htrace, List.countP_append, hevents, Nat.add_zero]
  · rw [State.delivered, State.delivered, htrace, List.countP_append]
    by_cases hdeliver : delivers c (owner, .returned thread call result published) = true
    · cases published with
      | false => exact nomatch hdeliver
      | true =>
        have hcall : call = c := by simpa [delivers] using hdeliver
        subst hcall
        rcases hsource with hsource | ⟨hfalse, -⟩
        · exact .inr ⟨by simp [hdeliver], (owner, thread), result, hsource, hend⟩
        · exact nomatch hfalse
    · exact .inl (by simp [hdeliver])

theorem Once.step (hfresh : Fresh s) (hs : Once s) (h : Step owner s op s') : Once s' := by
  have hunread : ∀ c, (∀ slot, s'.slots c = some slot → slot.state ≠ .closed) →
      s.delivered c = 0 ∧ ∀ key outcome, s.awaits key ≠ some ⟨c, .terminal outcome true⟩ := by
    intro c hopen
    refine hs.unread c fun slot hslot hclosed => ?_
    obtain ⟨slot', hslot', hlater⟩ := h.slot_later hfresh hslot
    exact hopen slot' hslot' (hlater.closed hclosed)
  have hready : ∀ {c outcome slotOwner armed}, s.slots c = some ⟨slotOwner, .ready outcome, armed⟩ →
      s.delivered c = 0 ∧ ∀ key outcome, s.awaits key ≠ some ⟨c, .terminal outcome true⟩ := by
    intro c outcome slotOwner armed hslot
    exact hs.unread c fun slot hslot' => by cases hslot.symm.trans hslot'; exact (nomatch ·)
  refine ⟨fun key c outcome published hawait => ?_, fun c hopen => ?_,
    fun key c outcome hawait => ?_, fun c => ?_⟩
  · rcases h.terminal_before hawait with hbefore | ⟨-, -, hclosed, -⟩
    · obtain ⟨slot, hslot, hclosed⟩ := hs.terminal key c outcome published hbefore
      obtain ⟨slot', hslot', hlater⟩ := h.slot_later hfresh hslot
      exact ⟨slot', hslot', hlater.closed hclosed⟩
    · exact hclosed
  · obtain ⟨hzero, hnoread⟩ := hunread c hopen
    refine ⟨?_, fun key outcome hawait => ?_⟩
    · rcases h.delivered_cases c with hsame | ⟨-, key, outcome, hread, -⟩
      · rw [hsame, hzero]
      · exact absurd hread (hnoread key outcome)
    · rcases h.terminal_before hawait with hbefore | ⟨-, -, ⟨slot, hslot, hclosed⟩, -⟩
      · exact hnoread key outcome hbefore
      · exact hopen slot hslot hclosed
  · rcases h.terminal_before hawait with hbefore |
      ⟨-, htrace, -, hothers, ⟨-, slotOwner, armed, hslot⟩ | ⟨hfalse, -⟩⟩
    · obtain ⟨hzero, hunique⟩ := hs.reading key c outcome hbefore
      refine ⟨?_, fun key' outcome' hawait' => ?_⟩
      · rcases h.delivered_cases c with hsame | ⟨-, key', outcome', hread, hend⟩
        · rw [hsame, hzero]
        · cases hunique key' outcome' hread
          exact nomatch hend.symm.trans hawait
      · rcases h.terminal_before hawait' with hbefore' |
          ⟨-, -, -, -, ⟨-, slotOwner, armed, hslot⟩ | ⟨hfalse, -⟩⟩
        · exact hunique key' outcome' hbefore'
        · exact absurd hbefore ((hready hslot).2 key outcome)
        · exact nomatch hfalse
    · obtain ⟨hzero, hnoread⟩ := hready hslot
      refine ⟨by rw [State.delivered, htrace]; exact hzero, fun key' outcome' hawait' => ?_⟩
      by_contra hne
      rw [hothers key' hne] at hawait'
      exact hnoread key' outcome' hawait'
    · exact nomatch hfalse
  · rcases h.delivered_cases c with hsame | ⟨hmore, key, outcome, hread, -⟩
    · rw [hsame]
      exact hs.once c
    · have hzero := (hs.reading key c outcome hread).1
      omega

/-! ## Sources

No outcome is invented: what an await returns as published was published by the task of its call,
under the same owner, and all else is one of two failures of the registry itself. -/

/-- Outcomes that are read come from the tasks, the other results are the registry's own. -/
structure Sourced (s : State) : Prop where
  ready : ∀ c owner outcome armed, s.slots c = some ⟨owner, .ready outcome, armed⟩ →
    (owner, .published c outcome) ∈ s.trace
  terminal : ∀ owner thread c outcome, s.awaits (owner, thread) = some ⟨c, .terminal outcome true⟩ →
    (owner, .published c outcome) ∈ s.trace
  returned : ∀ owner thread c outcome, (owner, .returned thread c outcome true) ∈ s.trace →
    (owner, .published c outcome) ∈ s.trace
  closed : ∀ key c outcome, s.awaits key = some ⟨c, .terminal outcome false⟩ →
    outcome = .error closedFailure
  own : ∀ owner thread c outcome, (owner, .returned thread c outcome false) ∈ s.trace →
    outcome = .error closedFailure ∨ outcome = .error notReadyFailure

/-- A slot that holds an outcome held it before, or its task has just published it. -/
theorem Step.ready_before (h : Step owner s op s') {o : Nat} {armed : Bool}
    (hslot : s'.slots c = some ⟨o, .ready outcome, armed⟩) :
    (∃ armed, s.slots c = some ⟨o, .ready outcome, armed⟩) ∨
      (o, .published c outcome) ∈ s'.trace := by
  cases h with
  | insert | publish | disarm | take | close =>
    simp only [State.log, State.notifyAll, State.setSlot, State.setAwait, State.setRelease,
      Function.update_apply] at hslot ⊢
    grind
  | _ => exact .inl ⟨armed, hslot⟩

theorem Sourced.step (howned : Owned s) (hs : Sourced s) (h : Step owner s op s') : Sourced s' := by
  obtain ⟨events, htrace, howner, hevents⟩ := h.trace_cases
  have hkeep : ∀ {e}, e ∈ s.trace → e ∈ s'.trace := by
    intro e he
    rw [htrace]
    exact List.mem_append_left _ he
  -- a return that this step adds is that of a terminal await, or of the registry
  have hreturned : ∀ {o thread c outcome published},
      (o, Event.returned thread c outcome published) ∈ s'.trace →
      (o, Event.returned thread c outcome published) ∈ s.trace ∨
        s.awaits (o, thread) = some ⟨c, .terminal outcome published⟩ ∨
        published = false ∧
          (outcome = .error closedFailure ∨ outcome = .error notReadyFailure) := by
    intro o thread c outcome published hmem
    rw [htrace, List.mem_append] at hmem
    refine hmem.imp_right fun hmem => ?_
    rcases hevents with hnone | ⟨_, _, _, _, rfl, -, -, -, hsource⟩
    · exact absurd rfl (hnone _ hmem thread c outcome published)
    · cases List.mem_singleton.mp hmem
      exact hsource
  refine ⟨fun c o outcome armed hslot => ?_, fun o thread c outcome hawait => ?_,
    fun o thread c outcome hmem => ?_, fun key c outcome hawait => ?_,
    fun o thread c outcome hmem => ?_⟩
  · rcases h.ready_before hslot with ⟨armed, hbefore⟩ | hmem
    · exact hkeep (hs.ready c o outcome armed hbefore)
    · exact hmem
  · rcases h.terminal_before hawait with hbefore |
      ⟨⟨rfl, hholding⟩, -, -, -, ⟨-, slotOwner, armed, hslot⟩ | ⟨hfalse, -⟩⟩
    · exact hkeep (hs.terminal o thread c outcome hbefore)
    · -- the slot that was read belongs to the reader
      obtain ⟨slot, hslot', howns⟩ := howned.awaits o thread _ hholding
      cases hslot.symm.trans hslot'
      exact hkeep (howns ▸ hs.ready _ _ _ _ hslot)
    · exact nomatch hfalse
  · rcases hreturned hmem with hbefore | hbefore | ⟨hfalse, -⟩
    · exact hkeep (hs.returned o thread c outcome hbefore)
    · exact hkeep (hs.terminal o thread c outcome hbefore)
    · exact nomatch hfalse
  · rcases h.terminal_before hawait with hbefore | ⟨-, -, -, -, ⟨hfalse, -⟩ | ⟨-, hclosed⟩⟩
    · exact hs.closed key c outcome hbefore
    · exact nomatch hfalse
    · exact hclosed
  · rcases hreturned hmem with hbefore | hbefore | ⟨-, hresult⟩
    · exact hs.own o thread c outcome hbefore
    · exact .inl (hs.closed _ c outcome hbefore)
    · exact hresult

/-! ## Releases

A release takes its calls out of the registry first and closes their slots afterwards, one critical
section each. In between a call is gone but its waiters are not told yet, and `Closing` remembers
who will. -/

def Closing (s : State) (c : Nat) : Prop := ∃ key r, s.releases key = some r ∧ c ∈ r.closing

/-- A call leaves the registry with its owner: after a terminal read, or released. -/
theorem Step.removed (h : Step owner s op s') (hfind : s.calls.find? c = some registered)
    (hgone : s'.calls.find? c = none) :
    registered.owner = owner ∧
      ((∃ thread outcome published, op = .retire thread ∧
          s.awaits (owner, thread) = some ⟨c, .terminal outcome published⟩) ∨
        (∃ thread, op = .release thread c ∧ Closing s' c) ∨
        ∃ thread calls, op = .releaseOwner thread calls ∧ c ∈ calls ∧ Closing s' c) := by
  cases h with
  | @insert call =>
    simp only [State.log, Lib.Keyed.find?_set] at hgone
    split_ifs at hgone
    cases hfind.symm.trans hgone
  | @attach call =>
    simp only [Lib.Keyed.find?_set] at hgone
    split_ifs at hgone
    cases hfind.symm.trans hgone
  | @retire thread call outcome published _ _ hawait hremoved =>
    obtain ⟨hc, howner⟩ := hremoved.gone hfind hgone
    cases List.mem_singleton.mp hc
    exact ⟨howner, .inl ⟨thread, outcome, published, rfl, hawait⟩⟩
  | @release op thread closing task _ _ hop _ _ hremoved =>
    obtain ⟨hc, howner⟩ := hremoved.gone hfind hgone
    refine ⟨howner, .inr ?_⟩
    rcases hop with ⟨call, rfl, rfl⟩ | ⟨rfl, -⟩
    · cases List.mem_singleton.mp hc
      exact .inl ⟨thread, rfl, _, _, Function.update_self .., hc⟩
    · exact .inr ⟨thread, closing, rfl, hc, _, _, Function.update_self .., hc⟩
  | _ => cases hfind.symm.trans hgone

/-- A release stays until it has closed its slots. -/
theorem Step.closing (h : Step owner s op s') (hclosing : Closing s c) :
    Closing s' c ∨ ∃ slot', s'.slots c = some slot' ∧ slot'.state.isPending = false := by
  obtain ⟨key, r, hr, hc⟩ := hclosing
  cases h with
  | release | finish =>
    refine .inl ⟨key, r, ?_, hc⟩
    simp only [State.setRelease, Function.update_apply]
    grind
  | @close thread _ rest task | @pass thread _ rest task =>
    simp only [Closing, State.notifyAll, State.setSlot, State.setRelease, Function.update_apply]
    by_cases hkey : key = (owner, thread)
    · -- the release is the one that has closed the first of its slots
      by_cases hrest : c ∈ rest
      · exact .inl ⟨key, ⟨rest, task⟩, if_pos hkey, hrest⟩
      · exact .inr (by grind [SlotState.isPending])
    · exact .inl ⟨key, r, (if_neg hkey).trans hr, hc⟩
  | _ => exact .inl ⟨key, r, hr, hc⟩

/-- A call that has left the registry is settled, or a release is about to close it. -/
def Released (s : State) : Prop :=
  ∀ c slot, s.slots c = some slot → s.calls.find? c = none →
    slot.state.isPending = false ∨ Closing s c

theorem Released.step (hfresh : Fresh s) (honce : Once s) (hs : Released s)
    (h : Step owner s op s') :
    Released s' := by
  intro c slot' hslot' hgone
  cases hslot : s.slots c with
  | none =>
    -- a slot that appears is that of a call that is registered with it
    rcases h.slots_none with ⟨call, -, -, hslots, hfind⟩ | hslots
    · rw [hslots, Function.update_apply] at hslot'
      split_ifs at hslot' with hc
      · subst hc
        exact nomatch hfind.symm.trans hgone
      · exact nomatch hslot.symm.trans hslot'
    · exact nomatch ((hslots c).mpr hslot).symm.trans hslot'
  | some slot =>
    obtain ⟨later, hlater, hmoves⟩ := h.slot_later hfresh hslot
    cases hlater.symm.trans hslot'
    cases hfind : s.calls.find? c with
    | none =>
      rcases hs c slot hslot hfind with hsettled | hclosing
      · exact .inl (hmoves.settled hsettled)
      · rcases h.closing hclosing with hclosing | ⟨later', hlater', hsettled⟩
        · exact .inr hclosing
        · cases hlater'.symm.trans hslot'
          exact .inl hsettled
    | some registered =>
      obtain ⟨-, ⟨thread, outcome, published, -, hawait⟩ | ⟨_, -, hclosing⟩ | ⟨_, _, -, -,
        hclosing⟩⟩ :=
        h.removed hfind hgone
      · obtain ⟨closed, hclosed, hstate⟩ := honce.terminal _ c outcome published hawait
        cases hclosed.symm.trans hslot
        refine .inl (hmoves.settled ?_)
        rw [hstate]
        rfl
      · exact .inr hclosing
      · exact .inr hclosing

/-! ## Every run

The parts of the invariant depend on each other only through `Fresh`, `Owned` and `Once`, so each
has a step lemma of its own. -/

structure Inv (s : State) : Prop where
  fresh : Fresh s
  owned : Owned s
  counted : Counted s
  woken : Woken s
  once : Once s
  sourced : Sourced s
  released : Released s

theorem inv_init : Inv State.init where
  fresh := ⟨by decide, by simp [State.init], by simp [State.init], by simp [State.init]⟩
  owned := ⟨by simp [State.init, Lib.Keyed.find?, Lib.Keyed.empty], by simp [State.init],
    by simp [State.init]⟩
  counted := fun _ => rfl
  woken := ⟨by simp [State.init], by simp [State.init]⟩
  once := ⟨by simp [State.init], by simp [State.init, State.delivered], by simp [State.init],
    by simp [State.init, State.delivered]⟩
  sourced := ⟨by simp [State.init], by simp [State.init], by simp [State.init],
    by simp [State.init], by simp [State.init]⟩
  released := by simp [Released, State.init]

theorem Inv.step (hs : Inv s) (hfew : s.nextCall < maxCallId) (h : Step owner s op s') :
    Inv s'  where
  fresh := hs.fresh.step hfew h
  owned := hs.owned.step hs.fresh h
  counted := hs.counted.step hs.fresh hs.owned h
  woken := hs.woken.step hs.fresh h
  once := hs.once.step hs.fresh h
  sourced := hs.sourced.step hs.owned h
  released := hs.released.step hs.fresh hs.once h

theorem inv_of_reachable (hs : system.ReachableIf fewCalls s) : Inv s := by
  refine hs.invariant (fun s hstart => ?_) fun l s s' _ hinv hok hstep => ?_
  · cases hstart
    exact inv_init
  · exact hinv.step hok (step_cases hstep)

/-- A call that was registered once and is not in the registry does not come back. -/
theorem Step.stays_removed (hs : Inv s) (h : Step owner s op s') (hslot : s.slots c = some slot)
    (hgone : s.calls.find? c = none) : s'.calls.find? c = none := by
  by_contra hfind
  obtain ⟨registered, hfind⟩ := Option.ne_none_iff_exists'.mp hfind
  rcases h.find?_cases hfind with ⟨before, hbefore, -⟩ | ⟨-, hfetched, -, -⟩
  · exact nomatch hgone.symm.trans hbefore
  · exact nomatch (hs.fresh.fetched _ hfetched).2.symm.trans hslot

/-- The operations that end the task of a call: its completion, and the drop of its guard. -/
def Op.ends (call : Nat) : Op → Prop
  | .complete c _ | .dropGuard c _ => c = call
  | _ => False

def Op.lets (call : Nat) : Op → Prop
  | .release _ c => c = call
  | .releaseOwner _ _ => True
  | _ => False

theorem Step.ends (h : Step owner s op s') (hop : op.ends c) :
    ∃ slot, s'.slots c = some slot ∧ slot.armed = false ∧ slot.state.isPending = false := by
  cases h with
  | publish hop' =>
    rcases hop' with rfl | ⟨_, rfl, -⟩ <;> cases hop <;>
      exact ⟨_, Function.update_self .., rfl, rfl⟩
  | disarm hop' _ hstate =>
    rcases hop' with ⟨_, rfl⟩ | ⟨_, rfl⟩ <;> cases hop <;>
      exact ⟨_, Function.update_self .., rfl, hstate⟩
  | release hop' => rcases hop' with ⟨_, rfl, -⟩ | ⟨rfl, -⟩ <;> cases hop
  | _ => cases hop

theorem Step.lets (h : Step owner s op s') (hop : op.lets c)
    (hfind : s'.calls.find? c = some registered) : registered.owner ≠ owner := by
  cases h with
  | publish hop' => rcases hop' with rfl | ⟨_, rfl, -⟩ <;> cases hop
  | disarm hop' => rcases hop' with ⟨_, rfl⟩ | ⟨_, rfl⟩ <;> cases hop
  | releaseMiss hmiss =>
    cases hop
    exact hmiss registered hfind
  | release hop' _ _ hremoved =>
    intro howner
    have hfind := (hremoved.find? c).symm.trans hfind
    split_ifs at hfind with hc
    · simp [howner, Option.filter_eq_some_iff] at hfind
    · rcases hop' with ⟨call, rfl, rfl⟩ | ⟨rfl, hperm, -⟩
      · exact hc (List.mem_singleton.mpr hop.symm)
      · exact hc (hperm.mem_iff.mpr (mem_ownCalls.mpr ⟨registered, hfind, howner⟩))
  | _ => cases hop

/-- An await that looks for a call that is not its owner's ends at once. -/
theorem lookup_miss {thread : Nat} (hnone : s.awaits (owner, thread) = none)
    (hmiss : ∀ registered, s.calls.find? call = some registered → registered.owner ≠ owner) :
    State.step (owner, .lookup thread call) s =
      some (s.endAwait owner thread call (.error closedFailure) false) := by
  simp only [State.step, hnone, Option.isSome_none, Bool.false_eq_true, if_false]
  cases hfind : s.calls.find? call with
  | none => rfl
  | some registered => simp [hmiss registered hfind]

/-- An await that holds a settled slot reads it without waiting. -/
theorem check_settled {thread : Nat} (hawait : s.awaits (owner, thread) = some ⟨call, .holding⟩)
    (hslot : s.slots call = some slot) (hsettled : slot.state.isPending = false) (elapsed : Bool) :
    ∃ s' outcome published, State.step (owner, .check thread elapsed) s = some s' ∧
      s'.awaits (owner, thread) = some ⟨call, .terminal outcome published⟩ := by
  obtain ⟨slotOwner, state, armed⟩ := slot
  cases state with
  | pending => exact nomatch hsettled
  | ready outcome =>
    exact ⟨(s.setSlot call ⟨slotOwner, .closed, armed⟩).setAwait owner thread
      ⟨call, .terminal outcome true⟩, outcome, true, by simp only [State.step, hawait, hslot],
      Function.update_self _ _ _⟩
  | closed =>
    exact ⟨s.setAwait owner thread ⟨call, .terminal (.error closedFailure) false⟩, _, false,
      by simp only [State.step, hawait, hslot], Function.update_self _ _ _⟩

structure RegistryOk (s : State) : Prop where
  -- each owner's count is its number of registered calls
  counted : ∀ owner, s.perOwner owner = (s.ownCalls owner).length
  /-- A published outcome is returned by at most one await, and nothing else is returned as
  one; other awaits return the registry's own failures. -/
  once : ∀ call, s.delivered call ≤ 1
  published : ∀ owner thread call outcome, (owner, .returned thread call outcome true) ∈ s.trace →
    (owner, .published call outcome) ∈ s.trace
  failed : ∀ owner thread call outcome, (owner, .returned thread call outcome false) ∈ s.trace →
    outcome = .error closedFailure ∨ outcome = .error notReadyFailure
  -- a call that has left the registry is not found again
  gone : ∀ call slot, s.slots call = some slot → s.calls.find? call = none →
    (∀ l s', system.step l s = some s' → s'.calls.find? call = none) ∧
      ∀ owner thread, s.awaits (owner, thread) = none →
        system.step (owner, .lookup thread call) s =
          some (s.endAwait owner thread call (.error closedFailure) false)
  /-- Once its task has ended or its release is over, every blocked await has been notified and
  no await waits. -/
  woken : ∀ call slot, s.slots call = some slot →
    slot.armed = false ∨ s.calls.find? call = none ∧ ¬ Closing s call →
    (∀ key n, s.awaits key = some ⟨call, .blocked n⟩ → n = true) ∧
      ∀ owner thread elapsed, s.awaits (owner, thread) = some ⟨call, .holding⟩ →
        ∃ s' outcome published, system.step (owner, .check thread elapsed) s = some s' ∧
          s'.awaits (owner, thread) = some ⟨call, .terminal outcome published⟩
  -- the end of its task leaves a call with a disarmed slot that is settled
  settled : ∀ owner op s' call, system.step (owner, op) s = some s' → op.ends call →
    ∃ slot, s'.slots call = some slot ∧ slot.armed = false ∧ slot.state.isPending = false
  -- a release, of one call or of all of them, leaves none of its calls in the registry
  released : ∀ owner op s' call registered, system.step (owner, op) s = some s' → op.lets call →
    s'.calls.find? call = some registered → registered.owner ≠ owner
  -- an await that times out changes nothing but its own thread
  timedOut : ∀ owner thread call slot s', s.awaits (owner, thread) = some ⟨call, .holding⟩ →
    s.slots call = some slot → slot.state.isPending = true →
    system.step (owner, .check thread true) s = some s' →
    s'.calls = s.calls ∧ s'.perOwner = s.perOwner ∧ s'.slots = s.slots ∧
      s'.releases = s.releases ∧ s'.fetched = s.fetched ∧ s'.nextCall = s.nextCall ∧
      ∀ key, key ≠ (owner, thread) → s'.awaits key = s.awaits key
  -- a call is removed by a terminal await or a release of its own owner
  removed : ∀ owner op s' call registered, system.step (owner, op) s = some s' →
    s.calls.find? call = some registered → s'.calls.find? call = none →
    registered.owner = owner ∧
      ((∃ thread outcome published, op = .retire thread ∧
          s.awaits (owner, thread) = some ⟨call, .terminal outcome published⟩) ∨
        (∃ thread, op = .release thread call) ∨
        ∃ thread calls, op = .releaseOwner thread calls ∧ call ∈ calls)

/-- **The registry of client calls.** Under every interleaving of registrations, task ends,
awaits and releases, with fewer identifiers than the bound, each state has the guarantees of
`RegistryOk`. -/
theorem call_registry_ok (s : State) (hs : system.ReachableIf fewCalls s) : RegistryOk s := by
  have hinv := inv_of_reachable hs
  refine ⟨hinv.counted, hinv.once.once, hinv.sourced.returned, hinv.sourced.own,
    fun call slot hslot hgone => ⟨fun l s' hstep => ?_, fun owner thread hnone => ?_⟩,
    fun call slot hslot hended => ?_, fun owner op s' call hstep hop => (step_cases hstep).ends hop,
    fun owner op s' call registered hstep hop => (step_cases hstep).lets hop,
    fun owner thread call slot s' hawait hslot hpending hstep => ?_,
    fun owner op s' call registered hstep hfind hgone => ?_⟩
  · exact (step_cases hstep).stays_removed hinv hslot hgone
  · exact lookup_miss hnone fun registered hfind => nomatch hgone.symm.trans hfind
  · have hsettled : slot.state.isPending = false := by
      rcases hended with hdisarmed | ⟨hgone, hclosing⟩
      · exact hinv.woken.disarmed call slot hslot hdisarmed
      · exact (hinv.released call slot hslot hgone).resolve_right hclosing
    exact ⟨fun key n hblocked => hinv.woken.notified key call slot n hblocked hslot hsettled,
      fun owner thread elapsed hawait => check_settled hawait hslot hsettled elapsed⟩
  · have hstate : slot.state = .pending := by
      cases hs : slot.state with
      | pending => rfl
      | _ => rw [hs] at hpending; exact nomatch hpending
    have hend : s' = s.endAwait owner thread call (.error notReadyFailure) false := by
      obtain ⟨slotOwner, state, armed⟩ := slot
      cases hstate
      have hcheck : system.step (owner, .check thread true) s =
          some (s.endAwait owner thread call (.error notReadyFailure) false) := by
        simp [system, State.step, hawait, hslot]
      exact Option.some.inj (hstep.symm.trans hcheck)
    subst hend
    exact ⟨rfl, rfl, rfl, rfl, rfl, rfl, fun key hkey => Function.update_of_ne hkey _ _⟩
  · obtain ⟨howner, hretire | ⟨thread, hop, -⟩ | ⟨thread, calls, hop, hmem, -⟩⟩ :=
      (step_cases hstep).removed hfind hgone
    · exact ⟨howner, .inl hretire⟩
    · exact ⟨howner, .inr (.inl ⟨thread, hop⟩)⟩
    · exact ⟨howner, .inr (.inr ⟨thread, calls, hop, hmem⟩)⟩

/-- An await has found its call when the task completes it and another thread releases it. -/
def heldRead : List (Nat × Op) :=
  [(7, .fetch 1), (7, .insert 1 true), (7, .attach 1), (7, .lookup 0 1),
    (7, .complete 1 (.ok [1])), (7, .release 1 1), (7, .close 1), (7, .close 1),
    (7, .check 0 false), (7, .retire 0)]

theorem call_registry_ok_heldRead :
    ∃ s, system.replayIf fewCalls heldRead State.init = some s ∧ RegistryOk s := by
  cases h : system.replayIf fewCalls heldRead State.init with
  | none =>
    have hsome : (system.replayIf fewCalls heldRead State.init).isSome = true := rfl
    rw [h] at hsome
    exact nomatch hsome
  | some s => exact ⟨s, rfl, call_registry_ok s (.replay (.start rfl) h)⟩

/-- The await still returns the published outcome after the release has returned. -/
theorem outcome_returned_after_release :
    (system.replayIf fewCalls heldRead State.init).map State.trace =
      some [(7, .registered 1), (7, .published 1 (.ok [1])), (7, .aborted 1), (7, .released 1),
        (7, .returned 0 1 (.ok [1]) true)] := rfl

end OcamlTemporal.Bridge.ClientCalls
