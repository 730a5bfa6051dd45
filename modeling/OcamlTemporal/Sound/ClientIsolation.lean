import Mathlib.Logic.Equiv.Basic
import OcamlTemporal.Sound.ClientCalls

/-!
# OcamlTemporal.Sound.ClientIsolation

What one owner sees of the registry of client calls that it shares with every other owner of the
process. `State.view` cuts the owner's part out of a state; `View.apply` is a registry that the
owner has for itself.

* A step of another owner leaves the view as it is (`view_foreign`).
* A step of the owner does to the view what `View.apply` does (`view_own`).

So the view after a run is what the owner's operations alone make of it (`view_replay`), and two
runs with the same operations of the owner end in the same view, up to the identifiers that the
shared counter gave out.
-/

namespace OcamlTemporal.Bridge.ClientCalls

/-! ## The registry of one owner

A registry with one owner needs no owners in its tables and no counter of identifiers. It is total:
where the shared registry would not let the owner take a step, the private one leaves the view as it
is, and `Enabled` says which steps those are. -/

/-- The owner's identifiers, calls (with a task or not), slots and threads, its count and what it
has seen. Everything that an operation of the owner reads is here, the counter that hands out
identifiers apart. -/
@[ext]
structure View where
  fetched : Nat → Bool
  calls : Nat → Option Bool
  slots : Nat → Option (SlotState × Bool)
  awaits : Nat → Option Await
  releases : Nat → Option Release
  count : Nat
  trace : List Event

namespace View

def empty : View :=
  ⟨fun _ => false, fun _ => none, fun _ => none, fun _ => none, fun _ => none, 0, []⟩

def log (v : View) (e : Event) : View := { v with trace := v.trace ++ [e] }

def setCall (v : View) (call : Nat) (task : Option Bool) : View :=
  { v with calls := Function.update v.calls call task }

def setSlot (v : View) (call : Nat) (state : SlotState) (armed : Bool) : View :=
  { v with slots := Function.update v.slots call (some (state, armed)) }

def notifyAll (v : View) (call : Nat) : View :=
  { v with awaits := fun thread => (v.awaits thread).map (Await.notify call) }

def setAwait (v : View) (thread : Nat) (a : Option Await) : View :=
  { v with awaits := Function.update v.awaits thread a }

def endAwait (v : View) (thread call : Nat) (result : Operation) (published : Bool) : View :=
  (v.setAwait thread none).log (.returned thread call result published)

def setRelease (v : View) (thread : Nat) (r : Option Release) : View :=
  { v with releases := Function.update v.releases thread r }

def remove (v : View) (call : Nat) : View :=
  match v.calls call with
  | some _ => { v.setCall call none with count := v.count - 1 }
  | none => v

def settle (v : View) (call : Nat) (outcome : Operation) : View :=
  match v.slots call with
  | some (.pending, _) =>
    ((v.setSlot call (.ready outcome) false).notifyAll call).log (.published call outcome)
  | some (state, _) => v.setSlot call state false
  | none => v

def closeSlot (v : View) (call : Nat) : View :=
  match v.slots call with
  | some (.pending, armed) => (v.setSlot call .closed armed).notifyAll call
  | _ => v

/-- One critical section of an operation of the owner, on its own registry: `State.step` without the
checks of ownership, since nothing in the view is anybody else's. -/
def apply (v : View) : Op → View
  | .fetch call => { v with fetched := Function.update v.fetched call true }
  | .insert call reserved =>
    let v := { v with fetched := Function.update v.fetched call false }
    if reserved then
      { (v.setSlot call .pending true).setCall call (some false) with
        count := v.count + 1 }.log (.registered call)
    else v.log (.refused reserveFailure)
  | .attach call =>
    match v.calls call with
    | some _ => v.setCall call (some true)
    | none => v.log (.aborted call)
  | .complete call outcome => v.settle call outcome
  | .dropGuard call panicking => v.settle call (.error (dropFailure panicking))
  | .lookup thread call =>
    match v.calls call with
    | some _ => v.setAwait thread (some ⟨call, .holding⟩)
    | none => v.endAwait thread call (.error closedFailure) false
  | .check thread elapsed =>
    match v.awaits thread with
    | some ⟨call, .holding⟩ =>
      match v.slots call with
      | some (.pending, _) =>
        if elapsed then v.endAwait thread call (.error notReadyFailure) false
        else v.setAwait thread (some ⟨call, .blocked false⟩)
      | some (.ready outcome, armed) =>
        (v.setSlot call .closed armed).setAwait thread (some ⟨call, .terminal outcome true⟩)
      | some (.closed, _) =>
        v.setAwait thread (some ⟨call, .terminal (.error closedFailure) false⟩)
      | none => v
    | _ => v
  | .wake thread =>
    match v.awaits thread with
    | some ⟨call, .blocked _⟩ => v.setAwait thread (some ⟨call, .holding⟩)
    | _ => v
  | .retire thread =>
    match v.awaits thread with
    | some ⟨call, .terminal outcome published⟩ =>
      (v.remove call).endAwait thread call outcome published
    | _ => v
  | .release thread call =>
    match v.calls call with
    | some task =>
      (v.remove call).setRelease thread (some ⟨[call], if task then some call else none⟩)
    | none => v.log (.released thread)
  | .releaseOwner thread calls =>
    { v with calls := fun _ => none, count := 0 }.setRelease thread (some ⟨calls, none⟩)
  | .close thread =>
    match v.releases thread with
    | some ⟨call :: rest, task⟩ => (v.closeSlot call).setRelease thread (some ⟨rest, task⟩)
    | some ⟨[], none⟩ => (v.setRelease thread none).log (.released thread)
    | some ⟨[], some call⟩ =>
      ((v.setRelease thread none).log (.aborted call)).log (.released thread)
    | none => v
  | .registeredCalls => v.log (.counted v.count)
  | .unregisteredCalls calls =>
    v.log (.unregistered (calls.filter fun call => (v.calls call).isNone))

/-- Whether the owner can take the step; an identifier is always there to be fetched. -/
def Enabled (v : View) : Op → Prop
  | .fetch _ | .attach _ | .registeredCalls | .unregisteredCalls _ => True
  | .insert call _ => v.fetched call = true
  | .complete call _ | .dropGuard call _ => ∃ state, v.slots call = some (state, true)
  | .lookup thread _ => v.awaits thread = none
  | .check thread _ => ∃ call, v.awaits thread = some ⟨call, .holding⟩
  | .wake thread => ∃ call notified, v.awaits thread = some ⟨call, .blocked notified⟩
  | .retire thread =>
    ∃ call outcome published, v.awaits thread = some ⟨call, .terminal outcome published⟩
  | .release thread _ => v.releases thread = none
  | .releaseOwner thread calls =>
    v.releases thread = none ∧ calls.Nodup ∧ ∀ c, c ∈ calls ↔ (v.calls c).isSome = true
  | .close thread => (v.releases thread).isSome = true

end View

/-! ## The part of an owner

The tables of a state are cut down to the entries of the owner. The lemmas come in pairs, for each
primitive change of `State`: made by the owner it is the change of the same name on the view, made
by anybody else it is not seen. -/

namespace State

def observed (s : State) (o : Nat) : List Event := (s.trace.filter (·.1 = o)).map Prod.snd

/-- What `owner` has in the shared registry. Awaits and releases are kept by owner and thread
already; calls and slots are looked up and dropped if they are another owner's. -/
def view (o : Nat) (s : State) : View where
  fetched c := decide ((o, c) ∈ s.fetched)
  calls c := ((s.calls.find? c).filter (·.owner = o)).map (·.task)
  slots c := ((s.slots c).filter (·.owner = o)).map fun slot => (slot.state, slot.armed)
  awaits thread := s.awaits (o, thread)
  releases thread := s.releases (o, thread)
  count := s.perOwner o
  trace := s.observed o

variable {s : State} {o p call thread : Nat}

theorem view_calls_eq_some {task : Bool} :
    (s.view o).calls call = some task ↔ ∃ registered, s.calls.find? call = some registered ∧
      registered.owner = o ∧ registered.task = task := by
  simp [view, Option.map_eq_some_iff, Option.filter_eq_some_iff, and_assoc]

theorem view_calls_eq_none :
    (s.view o).calls call = none ↔
      ∀ registered, s.calls.find? call = some registered → registered.owner ≠ o := by
  simp [view, Option.filter_eq_none_iff]

theorem view_slots_eq_some {state : SlotState} {armed : Bool} :
    (s.view o).slots call = some (state, armed) ↔ s.slots call = some ⟨o, state, armed⟩ := by
  simp only [view, Option.map_eq_some_iff, Option.filter_eq_some_iff, decide_eq_true_eq]
  constructor
  · rintro ⟨slot, ⟨hslot, howner⟩, heq⟩
    cases heq
    rw [hslot, ← howner]
  · intro hslot
    exact ⟨_, ⟨hslot, rfl⟩, rfl⟩

theorem view_slots_owns (h : s.owns p call) (hp : p ≠ o) : (s.view o).slots call = none := by
  obtain ⟨slot, hslot, rfl⟩ := h
  simp [view, hslot, Option.filter, hp]

/-! ### The owner's own changes -/

theorem view_log_self (e : Event) : (s.log o e).view o = (s.view o).log e := by
  ext1 <;> try rfl
  simp [view, log, View.log, observed]

theorem view_setSlot_self (state : SlotState) (armed : Bool) :
    (s.setSlot call ⟨o, state, armed⟩).view o = (s.view o).setSlot call state armed := by
  ext1 <;> try rfl
  funext c
  by_cases hc : c = call <;> simp [view, setSlot, View.setSlot, hc, Option.filter]

theorem view_notifyAll : (s.notifyAll call).view o = (s.view o).notifyAll call := rfl

theorem view_setAwaits_self (a : Option Await) :
    view o { s with awaits := Function.update s.awaits (o, thread) a } =
      (s.view o).setAwait thread a := by
  ext1 <;> try rfl
  funext t
  by_cases ht : t = thread <;> simp [view, View.setAwait, ht]

theorem view_setAwait_self (a : Await) :
    (s.setAwait o thread a).view o = (s.view o).setAwait thread (some a) :=
  view_setAwaits_self _

theorem view_endAwait_self (result : Operation) (published : Bool) :
    (s.endAwait o thread call result published).view o =
      (s.view o).endAwait thread call result published := by
  rw [endAwait, view_log_self, view_setAwaits_self, View.endAwait]

theorem view_setRelease_self (r : Option Release) :
    (s.setRelease o thread r).view o = (s.view o).setRelease thread r := by
  ext1 <;> try rfl
  funext t
  by_cases ht : t = thread <;> simp [view, setRelease, View.setRelease, ht]

theorem view_remove_self : (s.remove call (some o)).2.view o = (s.view o).remove call := by
  rw [View.remove]
  cases hview : (s.view o).calls call with
  | none => rw [remove_miss (view_calls_eq_none.mp hview)]
  | some task =>
    obtain ⟨registered, hfind, howner, -⟩ := view_calls_eq_some.mp hview
    rw [remove_hit hfind howner]
    ext1 <;> try rfl
    · funext c
      by_cases hc : c = call <;> simp [view, View.setCall, Lib.Keyed.find?_erase, hc]
    · simp [view]

/-! ### Changes by another owner

A slot that another owner changes is its own, which is what `Owned` says of every slot that an
operation gets hold of. -/

theorem view_log_other (hp : p ≠ o) (e : Event) : (s.log p e).view o = s.view o := by
  ext1 <;> try rfl
  simp [view, log, observed, hp]

theorem view_setSlot_other (hp : p ≠ o) (howns : s.owns p call) (state : SlotState) (armed : Bool) :
    (s.setSlot call ⟨p, state, armed⟩).view o = s.view o := by
  ext1 <;> try rfl
  funext c
  by_cases hc : c = call
  · subst hc
    rw [view_slots_owns howns hp]
    simp [view, setSlot, Option.filter, hp]
  · simp [view, setSlot, hc]

/-- No thread of the owner waits for the call of another owner, so that a notification of all
waiters of that call wakes none of the owner's. -/
theorem view_notifyAll_other (howned : Owned s) (hp : p ≠ o) (howns : s.owns p call) :
    (s.notifyAll call).view o = s.view o := by
  ext1 <;> try rfl
  funext t
  change (s.awaits (o, t)).map (Await.notify call) = s.awaits (o, t)
  cases hawait : s.awaits (o, t) with
  | none => rfl
  | some a =>
    have hne : a.call ≠ call := by
      rintro rfl
      obtain ⟨slot, hslot, rfl⟩ := howned.awaits o t a hawait
      obtain ⟨slot', hslot', rfl⟩ := howns
      cases hslot.symm.trans hslot'
      exact hp rfl
    rw [Option.map_some, Await.notify]
    split <;> simp [hne]

theorem view_setAwaits_other (hp : p ≠ o) (a : Option Await) :
    view o { s with awaits := Function.update s.awaits (p, thread) a } = s.view o := by
  ext1 <;> try rfl
  funext t
  simp [view, hp.symm]

theorem view_endAwait_other (hp : p ≠ o) (result : Operation) (published : Bool) :
    (s.endAwait p thread call result published).view o = s.view o := by
  rw [endAwait, view_log_other hp, view_setAwaits_other hp]

theorem view_setRelease_other (hp : p ≠ o) (r : Option Release) :
    (s.setRelease p thread r).view o = s.view o := by
  ext1 <;> try rfl
  funext t
  simp [view, setRelease, hp.symm]

theorem view_removed_other {removed : List Nat} {calls : Lib.Keyed RegisteredCall.call}
    {perOwner : Nat → Nat} (hp : p ≠ o) (h : Removed p removed s { s with calls, perOwner }) :
    ({ s with calls, perOwner } : State).view o = s.view o := by
  ext1 <;> try rfl
  · funext c
    have hfind := h.find? c
    simp only [view] at hfind ⊢
    rw [hfind]
    split_ifs
    · cases s.calls.find? c with
      | none => rfl
      | some registered =>
        by_cases howner : registered.owner = p <;> simp [Option.filter, howner, hp]
    · rfl
  · exact h.others o hp.symm

end State

/-! ## Steps

`Step` lists what a critical section can do; the two lemmas of this section go through that list,
once for a stranger and once for the owner. -/

open ClientCalls.State

variable {o call : Nat} {op : Op} {s s' : State} {slot : CallSlot}

/-- A slot that an await or a release of the owner is about. -/
theorem slot_of_owns (howns : s.owns o call) (hslot : s.slots call = some slot) :
    slot.owner = o := by
  obtain ⟨slot', hslot', rfl⟩ := howns
  cases hslot.symm.trans hslot'
  rfl

/-- A step of another owner does not reach the owner's part: whatever it changes is under the other
owner's key or is a slot, call or count of the other owner. -/
theorem view_foreign {p : Nat} (hinv : Inv s) (hp : p ≠ o) (h : Step p s op s') :
    s'.view o = s.view o := by
  cases h with
  | fetch =>
    ext1 <;> try rfl
    funext c
    simp [view, hp.symm]
  | @refuse call =>
    rw [view_log_other hp]
    ext1 <;> try rfl
    funext c
    have hne : (o, c) ≠ (p, call) := fun heq => hp (congrArg Prod.fst heq).symm
    simp [view, List.mem_erase_of_ne hne]
  | @insert call _ hfetched =>
    rw [view_log_other hp]
    have hslot := (hinv.fresh.fetched _ hfetched).2
    ext1 <;> try rfl
    · funext c
      have hne : (o, c) ≠ (p, call) := fun heq => hp (congrArg Prod.fst heq).symm
      simp [view, List.mem_erase_of_ne hne]
    · funext c
      by_cases hc : c = call
      · subst hc
        -- an identifier that is not used yet is not registered
        have hnone : s.calls.find? c = none := by
          by_contra hsome
          obtain ⟨registered, hfind⟩ := Option.ne_none_iff_exists'.mp hsome
          obtain ⟨slot, hslot', -⟩ := hinv.owned.calls c registered hfind
          cases hslot.symm.trans hslot'
        simp [view, Lib.Keyed.find?_set, hnone, Option.filter, hp]
      · simp [view, Lib.Keyed.find?_set, hc]
    · funext c
      by_cases hc : c = call
      · subst hc
        simp [view, hslot, Option.filter, hp]
      · simp [view, hc]
    · simp [view, hp.symm]
  | @attach call registered hfind howner =>
    ext1 <;> try rfl
    funext c
    have hcall : registered.call = call := (Lib.Keyed.mem_iff_find?.mp hfind).2
    by_cases hc : c = call
    · subst hc
      simp [view, Lib.Keyed.find?_set, hcall, hfind, Option.filter, howner, hp]
    · simp [view, Lib.Keyed.find?_set, hcall, hc]
  | @publish _ call outcome _ hslot =>
    have howns : s.owns p call := ⟨_, hslot, rfl⟩
    rw [view_log_other hp, view_notifyAll, view_setSlot_other hp howns, ← view_notifyAll,
      view_notifyAll_other hinv.owned hp howns]
  | disarm _ hslot => exact view_setSlot_other hp ⟨_, hslot, rfl⟩ _ _
  | find | block | readClosed | wake => exact view_setAwaits_other hp _
  | miss | elapse => exact view_endAwait_other hp _ _
  | @take thread call slotOwner outcome armed _ hawait hslot =>
    have howns := hinv.owned.awaits p thread _ hawait
    obtain rfl : slotOwner = p := slot_of_owns howns hslot
    exact (view_setAwaits_other hp _).trans (view_setSlot_other hp howns _ _)
  | retire _ hremoved => rw [view_endAwait_other hp, view_removed_other hp hremoved]
  | release _ _ _ hremoved => rw [view_setRelease_other hp, view_removed_other hp hremoved]
  | @close thread call rest task slot hrelease hslot =>
    have howns := hinv.owned.releases p thread _ hrelease call List.mem_cons_self
    obtain rfl : slot.owner = p := slot_of_owns howns hslot
    rw [view_setRelease_other hp, view_notifyAll, view_setSlot_other hp howns, ← view_notifyAll,
      view_notifyAll_other hinv.owned hp howns]
  | pass => exact view_setRelease_other hp _
  | @finish thread _ events _ hevents =>
    have hnone : events.filter (fun e => e.1 = o) = [] := by
      refine List.filter_eq_nil_iff.mpr fun e he => ?_
      simp [(hevents e he).1, hp]
    ext1 <;> try rfl
    · funext t
      simp [view, setRelease, hp.symm]
    · simp [view, observed, setRelease, hnone]
  | orphan | releaseMiss | count | list => exact view_log_other hp _

theorem view_settle {outcome : Operation} (h : s.settle o call outcome = some s') :
    s'.view o = (s.view o).settle call outcome := by
  rw [settle] at h
  split at h
  · rename_i slot hslot
    obtain ⟨slotOwner, state, armed⟩ := slot
    split_ifs at h with hguard hpending <;> obtain ⟨rfl, rfl⟩ := hguard <;> cases h <;>
      rw [View.settle, view_slots_eq_some.mpr hslot] <;> cases state
    · rw [view_log_self, view_notifyAll, view_setSlot_self]
    · cases hpending
    · cases hpending
    · exact absurd rfl hpending
    · exact view_setSlot_self _ _
    · exact view_setSlot_self _ _
  · cases h

theorem view_closeSlot (hslot : s.slots call = some slot) (howner : slot.owner = o) :
    (s.closeSlot call slot).view o = (s.view o).closeSlot call := by
  obtain ⟨slotOwner, state, armed⟩ := slot
  cases howner
  rw [View.closeSlot, view_slots_eq_some.mpr hslot, closeSlot]
  cases state with
  | pending =>
    rw [if_pos (by rfl), view_notifyAll, view_setSlot_self]
  | _ => rfl

/-- The owner sees the slot that one of its awaits is about. -/
theorem view_slot_of_await {thread : Nat} {phase : Phase} (hinv : Inv s)
    (hawait : s.awaits (o, thread) = some ⟨call, phase⟩) (hslot : s.slots call = some slot) :
    (s.view o).slots call = some (slot.state, slot.armed) := by
  obtain ⟨slotOwner, state, armed⟩ := slot
  obtain rfl : o = slotOwner := (slot_of_owns (hinv.owned.awaits o thread _ hawait) hslot).symm
  exact view_slots_eq_some.mpr hslot

/-- Registering the identifier that the owner has fetched; the bound on identifiers is not
reached. -/
theorem view_insert {reserved : Bool} (hinv : Inv s)
    (h : State.step (o, .insert call reserved) s = some s') :
    s'.view o = (s.view o).apply (.insert call reserved) := by
  simp only [State.step] at h
  split_ifs at h with hfetched hmax hreserved
  · exact absurd (hinv.fresh.fetched _ hfetched).1
      (Nat.not_lt.mpr (Nat.le_trans hinv.fresh.few hmax))
  · cases h
    have hnodup : s.fetched.Nodup := hinv.fresh.nodup.of_map
    rw [view_log_self, View.apply, if_pos hreserved]
    congr 1
    ext1 <;> try rfl
    · funext c
      by_cases hc : c = call <;>
        simp [view, View.setSlot, View.setCall, setSlot, hnodup.mem_erase_iff, hc]
    · funext c
      by_cases hc : c = call <;>
        simp [view, View.setSlot, View.setCall, setSlot, Lib.Keyed.find?_set, Option.filter, hc]
    · funext c
      by_cases hc : c = call <;>
        simp [view, View.setSlot, View.setCall, setSlot, Option.filter, hc]
    · simp [view, setSlot]
  · cases h
    have hnodup : s.fetched.Nodup := hinv.fresh.nodup.of_map
    rw [view_log_self, View.apply, if_neg hreserved]
    congr 1
    ext1 <;> try rfl
    funext c
    by_cases hc : c = call <;> simp [view, hnodup.mem_erase_iff, hc]

theorem view_attach (h : State.step (o, .attach call) s = some s') :
    s'.view o = (s.view o).apply (.attach call) := by
  simp only [State.step] at h
  rw [View.apply]
  cases hview : (s.view o).calls call with
  | none =>
    have hmiss := view_calls_eq_none.mp hview
    have hs' : s' = s.log o (.aborted call) := by
      cases hfind : s.calls.find? call with
      | none => simpa [hfind] using h.symm
      | some registered => simpa [hfind, hmiss registered hfind] using h.symm
    rw [hs', view_log_self]
  | some task =>
    obtain ⟨registered, hfind, howner, -⟩ := view_calls_eq_some.mp hview
    have hcall : registered.call = call := (Lib.Keyed.mem_iff_find?.mp hfind).2
    simp only [hfind, if_pos howner] at h
    cases h
    ext1 <;> try rfl
    funext c
    by_cases hc : c = call
    · subst hc
      simp [view, View.setCall, Lib.Keyed.find?_set, hcall, Option.filter, howner]
    · simp [view, View.setCall, Lib.Keyed.find?_set, hcall, hc]

theorem view_lookup {thread : Nat} (h : State.step (o, .lookup thread call) s = some s') :
    s'.view o = (s.view o).apply (.lookup thread call) := by
  rw [View.apply]
  cases step_cases h with
  | find _ hfind howner =>
    rw [view_calls_eq_some.mpr ⟨_, hfind, howner, rfl⟩, view_setAwait_self]
  | miss _ hmiss => rw [view_calls_eq_none.mpr hmiss, view_endAwait_self]
  | publish hop | disarm hop | release hop => simp at hop

/-- An await reads the slot of a call that is its own, and so sees the slot that the view has. -/
theorem view_check {thread : Nat} {elapsed : Bool} (hinv : Inv s)
    (h : State.step (o, .check thread elapsed) s = some s') :
    s'.view o = (s.view o).apply (.check thread elapsed) := by
  rw [View.apply]
  cases step_cases h with
  | @elapse _ call slot hawait hslot hstate =>
    have hseen := view_slot_of_await hinv hawait hslot
    have hview : (s.view o).awaits thread = some ⟨call, .holding⟩ := hawait
    rw [view_endAwait_self, hview]
    simp only [hseen, hstate, if_true]
  | @block _ call slot hawait hslot hstate =>
    have hseen := view_slot_of_await hinv hawait hslot
    have hview : (s.view o).awaits thread = some ⟨call, .holding⟩ := hawait
    rw [view_setAwait_self, hview]
    simp only [hseen, hstate, Bool.false_eq_true, if_false]
  | @take _ call slotOwner outcome armed _ hawait hslot =>
    obtain rfl : o = slotOwner :=
      (slot_of_owns (hinv.owned.awaits o thread _ hawait) hslot).symm
    have hview : (s.view o).awaits thread = some ⟨call, .holding⟩ := hawait
    rw [view_setAwait_self, view_setSlot_self, hview]
    simp only [view_slots_eq_some.mpr hslot]
  | @readClosed _ call slot _ hawait hslot hstate =>
    have hseen := view_slot_of_await hinv hawait hslot
    have hview : (s.view o).awaits thread = some ⟨call, .holding⟩ := hawait
    rw [view_setAwait_self, hview]
    simp only [hseen, hstate]
  | publish hop | disarm hop | release hop => simp at hop

theorem view_release {thread : Nat} (h : State.step (o, .release thread call) s = some s') :
    s'.view o = (s.view o).apply (.release thread call) := by
  simp only [State.step] at h
  split_ifs at h
  rw [View.apply]
  rcases find_cases s o call with ⟨registered, hfind, howner⟩ | hmiss
  · have hview := view_calls_eq_some.mpr ⟨registered, hfind, howner, rfl⟩
    rw [hview, ← view_remove_self]
    dsimp only
    rw [← view_setRelease_self]
    rw [remove_hit hfind howner] at h ⊢
    cases h
    rfl
  · rw [remove_miss hmiss] at h
    cases h
    rw [view_calls_eq_none.mpr hmiss, view_log_self]

/-- After all calls of the owner were removed the view has none and counts none. -/
theorem view_releaseOwner {thread : Nat} {calls : List Nat} (hinv : Inv s)
    (h : State.step (o, .releaseOwner thread calls) s = some s') :
    s'.view o = (s.view o).apply (.releaseOwner thread calls) := by
  cases step_cases h with
  | @release _ _ _ _ calls' perOwner hop _ _ hremoved =>
    simp only [reduceCtorEq, false_and, exists_false, Op.releaseOwner.injEq, false_or] at hop
    obtain ⟨⟨rfl, rfl⟩, hperm, rfl⟩ := hop
    have hnone : ∀ c, (({ s with calls := calls', perOwner } : State).view o).calls c = none := by
      intro c
      refine view_calls_eq_none.mpr fun registered hfind howner => ?_
      rw [hremoved.find?] at hfind
      split_ifs at hfind with hmem
      · simp [Option.filter_eq_some_iff, howner] at hfind
      · exact hmem (hperm.mem_iff.mpr (mem_ownCalls.mpr ⟨registered, hfind, howner⟩))
    rw [view_setRelease_self, View.apply]
    congr 1
    ext1 <;> try rfl
    · exact funext hnone
    · refine (hinv.counted.removed hremoved o).trans (List.length_eq_zero_iff.mpr ?_)
      refine List.eq_nil_iff_forall_not_mem.mpr fun c hc => ?_
      obtain ⟨registered, hfind, howner⟩ := mem_ownCalls.mp hc
      exact view_calls_eq_none.mp (hnone c) registered hfind howner
  | publish hop | disarm hop => simp at hop

theorem view_close {thread : Nat} (hinv : Inv s) (h : State.step (o, .close thread) s = some s') :
    s'.view o = (s.view o).apply (.close thread) := by
  simp only [State.step] at h
  rw [View.apply]
  cases hrelease : s.releases (o, thread) with
  | none => simp [hrelease] at h
  | some release =>
    have hview : (s.view o).releases thread = some release := hrelease
    obtain ⟨_ | ⟨call, rest⟩, _ | aborted⟩ := release
    · simp only [hrelease] at h
      cases h
      rw [hview, view_log_self, view_setRelease_self]
    · simp only [hrelease] at h
      cases h
      rw [hview, view_log_self, view_log_self, view_setRelease_self]
    all_goals
      obtain ⟨slot, hslot, howner⟩ := hinv.owned.releases o thread _ hrelease call
        List.mem_cons_self
      simp only [hrelease, hslot] at h
      cases h
      rw [hview, view_setRelease_self, view_closeSlot hslot howner]

theorem view_unregisteredCalls {calls : List Nat}
    (h : State.step (o, .unregisteredCalls calls) s = some s') :
    s'.view o = (s.view o).apply (.unregisteredCalls calls) := by
  cases h
  rw [view_log_self, View.apply]
  congr 3
  funext call
  cases hview : (s.view o).calls call with
  | none =>
    have hmiss := view_calls_eq_none.mp hview
    cases hfind : s.calls.find? call with
    | none => rfl
    | some registered => simp [hmiss registered hfind]
  | some task =>
    obtain ⟨registered, hfind, howner, -⟩ := view_calls_eq_some.mp hview
    simp [hfind, howner]

/-- A step of the owner does to its part what the private registry does. Where the step looks a call
up, the shared registry finds it for this owner exactly if the view has it. -/
theorem view_own (hinv : Inv s) (h : State.step (o, op) s = some s') :
    s'.view o = (s.view o).apply op := by
  cases op with
  | fetch call =>
    simp only [State.step] at h
    split_ifs at h with hcall
    cases h
    ext1 <;> try rfl
    funext c
    by_cases hc : c = call <;> simp [view, View.apply, hc, ← hcall]
  | insert call reserved => exact view_insert hinv h
  | attach call => exact view_attach h
  | complete call outcome => exact view_settle h
  | dropGuard call panicking => exact view_settle h
  | lookup thread call => exact view_lookup h
  | check thread elapsed => exact view_check hinv h
  | wake thread =>
    cases step_cases h with
    | @wake _ call notified hawait =>
      have hview : (s.view o).awaits thread = some ⟨call, .blocked notified⟩ := hawait
      rw [view_setAwait_self, View.apply, hview]
    | publish hop | disarm hop | release hop => simp at hop
  | retire thread =>
    simp only [State.step] at h
    split at h
    · rename_i call outcome published hawait
      have hview : (s.view o).awaits thread = some ⟨call, .terminal outcome published⟩ := hawait
      cases h
      rw [view_endAwait_self, view_remove_self, View.apply, hview]
    · cases h
  | release thread call => exact view_release h
  | releaseOwner thread calls => exact view_releaseOwner hinv h
  | close thread => exact view_close hinv h
  | registeredCalls =>
    cases h
    exact view_log_self _
  | unregisteredCalls calls => exact view_unregisteredCalls h

/-- A task can settle its call as long as the guard of the slot is armed. -/
theorem settle_isSome_iff {outcome : Operation} : (s.settle o call outcome).isSome = true ↔
    ∃ state, (s.view o).slots call = some (state, true) := by
  simp only [view_slots_eq_some, settle]
  cases hslot : s.slots call with
  | none => simp
  | some slot =>
    obtain ⟨slotOwner, state, armed⟩ := slot
    by_cases hguard : slotOwner = o ∧ armed = true
    · obtain ⟨rfl, rfl⟩ := hguard
      by_cases hpending : state.isPending = true <;> simp [hpending]
    · simp [hguard]

/-- An await that holds its slot finds it, so that it can always be checked. -/
theorem check_isSome_iff {thread : Nat} {elapsed : Bool} (hinv : Inv s) :
    (State.step (o, .check thread elapsed) s).isSome = true ↔
      ∃ call, s.awaits (o, thread) = some ⟨call, .holding⟩ := by
  cases hawait : s.awaits (o, thread) with
  | none => simp [State.step, hawait]
  | some a =>
    obtain ⟨call, phase⟩ := a
    obtain ⟨slot, hslot, -⟩ := hinv.owned.awaits o thread _ hawait
    obtain ⟨slotOwner, state, armed⟩ := slot
    cases phase with
    | holding => cases state <;> cases elapsed <;> simp [State.step, hawait, hslot]
    | blocked notified => simp [State.step, hawait]
    | terminal outcome published => simp [State.step, hawait]

theorem mem_ownCalls_iff_view {c : Nat} :
    c ∈ s.ownCalls o ↔ ((s.view o).calls c).isSome = true := by
  rw [mem_ownCalls, Option.isSome_iff_exists]
  simp only [view_calls_eq_some]
  constructor
  · intro hcall
    obtain ⟨r, hfind, howner⟩ := hcall
    exact ⟨_, r, hfind, howner, rfl⟩
  · intro hcall
    obtain ⟨_, r, hfind, howner, -⟩ := hcall
    exact ⟨r, hfind, howner⟩

/-- A listing of the calls of the owner is one of the calls in its view. -/
theorem perm_ownCalls_iff {calls : List Nat} : calls.Perm (s.ownCalls o) ↔
    calls.Nodup ∧ ∀ c, c ∈ calls ↔ ((s.view o).calls c).isSome = true := by
  have hnodup : (s.ownCalls o).Nodup := by
    rw [ownCalls]
    exact s.calls.nodup.sublist (List.filter_sublist.map _)
  constructor
  · intro hperm
    exact ⟨hperm.nodup_iff.mpr hnodup, fun c => hperm.mem_iff.trans mem_ownCalls_iff_view⟩
  · intro hcalls
    obtain ⟨hcalls, hiff⟩ := hcalls
    exact (List.perm_ext_iff_of_nodup hcalls hnodup).mpr fun c =>
      (hiff c).trans mem_ownCalls_iff_view.symm

theorem close_isSome_iff {thread : Nat} (hinv : Inv s) :
    (State.step (o, .close thread) s).isSome = true ↔
      (s.releases (o, thread)).isSome = true := by
  simp only [State.step]
  cases hrelease : s.releases (o, thread) with
  | none => simp
  | some release =>
    obtain ⟨_ | ⟨call, rest⟩, _ | aborted⟩ := release
    · simp
    · simp
    all_goals
      obtain ⟨slot, hslot, -⟩ := hinv.owned.releases o thread _ hrelease call List.mem_cons_self
      simp [hslot]

/-- Which steps the owner can take is seen in its part. `fetch` is left out: whether an identifier
is the next one is up to the counter, which all owners share. -/
theorem enabled_iff (hinv : Inv s) (hop : ∀ call, op ≠ .fetch call) :
    (State.step (o, op) s).isSome = true ↔ (s.view o).Enabled op := by
  cases op with
  | fetch call => exact absurd rfl (hop call)
  | insert call reserved =>
    simp only [State.step, View.Enabled, view, decide_eq_true_eq]
    split_ifs with hfetched <;> simp [hfetched]
  | attach call =>
    simp only [State.step, View.Enabled, iff_true]
    split
    · split_ifs <;> rfl
    · rfl
  | complete call outcome => exact settle_isSome_iff
  | dropGuard call panicking => exact settle_isSome_iff
  | lookup thread call =>
    simp only [State.step, View.Enabled]
    change _ ↔ s.awaits (o, thread) = none
    cases hawait : s.awaits (o, thread) with
    | none =>
      simp only [Option.isSome_none, Bool.false_eq_true, if_false, iff_true]
      split
      · split_ifs <;> rfl
      · rfl
    | some a => simp
  | check thread elapsed => exact check_isSome_iff hinv
  | wake thread =>
    change _ ↔ ∃ call notified, s.awaits (o, thread) = some ⟨call, .blocked notified⟩
    cases hawait : s.awaits (o, thread) with
    | none => simp [State.step, hawait]
    | some a =>
      obtain ⟨call, phase⟩ := a
      cases phase <;> simp [State.step, hawait]
  | retire thread =>
    change _ ↔ ∃ call outcome published,
      s.awaits (o, thread) = some ⟨call, .terminal outcome published⟩
    cases hawait : s.awaits (o, thread) with
    | none => simp [State.step, hawait]
    | some a =>
      obtain ⟨call, phase⟩ := a
      cases phase <;> simp [State.step, hawait]
  | release thread call =>
    change _ ↔ s.releases (o, thread) = none
    simp only [State.step]
    cases hrelease : s.releases (o, thread) with
    | none =>
      simp only [Option.isSome_none, Bool.false_eq_true, if_false, iff_true]
      split <;> rfl
    | some release => simp
  | releaseOwner thread calls =>
    change _ ↔ s.releases (o, thread) = none ∧ _
    rw [← perm_ownCalls_iff]
    simp only [State.step]
    split_ifs with hguard
    · rw [← not_iff_not]
      cases hrelease : s.releases (o, thread) <;> simp_all
    · simpa using hguard
  | close thread => exact close_isSome_iff hinv
  | registeredCalls => exact iff_of_true rfl trivial
  | unregisteredCalls calls => exact iff_of_true rfl trivial

/-! ## Runs

By induction over a run the view is a fold of `View.apply` over the owner's own operations; the
operations of the others have dropped out. -/

def ownOps (o : Nat) (run : List (Nat × Op)) : List Op := (run.filter (·.1 = o)).map Prod.snd

theorem view_init (o : Nat) : State.init.view o = View.empty := by
  ext1 <;> rfl

/-- **The owner's part of a run.** It is what the owner's operations alone make of it. -/
theorem view_replay {run : List (Nat × Op)} (hinv : Inv s)
    (h : system.replayIf fewCalls run s = some s') :
    Inv s' ∧ s'.view o = (ownOps o run).foldl View.apply (s.view o) := by
  induction run generalizing s with
  | nil =>
    cases h
    exact ⟨hinv, rfl⟩
  | cons label run ih =>
    obtain ⟨p, op⟩ := label
    rw [Lib.Transitions.replayIf] at h
    split_ifs at h with hfew
    obtain ⟨m, hm, hrest⟩ := Option.bind_eq_some_iff.mp h
    obtain ⟨hinv', hview⟩ := ih (hinv.step hfew (step_cases hm)) hrest
    refine ⟨hinv', hview.trans ?_⟩
    by_cases hp : p = o
    · subst hp
      simp [ownOps, view_own hinv hm]
    · simp [ownOps, hp, view_foreign hinv hp (step_cases hm)]

/-! ## Identifiers under another name

Two runs in which other owners register more or less give the owner's calls different identifiers.
The private registry is equivariant: `rename_apply` says that renaming the calls before an operation
or after it is the same, so identifiers carry no information but which is which. -/

variable (ρ : Equiv.Perm Nat)

def Await.rename (a : Await) : Await := { a with call := ρ a.call }

def Release.rename (r : Release) : Release := ⟨r.closing.map ρ, r.task.map ρ⟩

def Event.rename : Event → Event
  | .registered call => .registered (ρ call)
  | .aborted call => .aborted (ρ call)
  | .published call outcome => .published (ρ call) outcome
  | .returned thread call result b => .returned thread (ρ call) result b
  | .unregistered calls => .unregistered (calls.map ρ)
  | e => e

def Op.rename : Op → Op
  | .fetch call => .fetch (ρ call)
  | .insert call reserved => .insert (ρ call) reserved
  | .attach call => .attach (ρ call)
  | .complete call outcome => .complete (ρ call) outcome
  | .dropGuard call panicking => .dropGuard (ρ call) panicking
  | .lookup thread call => .lookup thread (ρ call)
  | .release thread call => .release thread (ρ call)
  | .releaseOwner thread calls => .releaseOwner thread (calls.map ρ)
  | .unregisteredCalls calls => .unregisteredCalls (calls.map ρ)
  | op => op

namespace View

/-- The view with every identifier renamed, in its tables, in the threads that hold one and in what
the owner has seen. -/
def rename (v : View) : View where
  fetched := v.fetched ∘ ρ.symm
  calls := v.calls ∘ ρ.symm
  slots := v.slots ∘ ρ.symm
  awaits thread := (v.awaits thread).map (Await.rename ρ)
  releases thread := (v.releases thread).map (Release.rename ρ)
  count := v.count
  trace := v.trace.map (Event.rename ρ)

variable {ρ} {v : View} {call thread : Nat}

theorem update_rename {β : Type} (f : Nat → β) (call : Nat) (b : β) :
    Function.update f call b ∘ ρ.symm = Function.update (f ∘ ρ.symm) (ρ call) b :=
  Function.update_comp_equiv f ρ.symm call b

@[simp] theorem rename_calls : (v.rename ρ).calls (ρ call) = v.calls call := by simp [rename]

@[simp] theorem rename_slots : (v.rename ρ).slots (ρ call) = v.slots call := by simp [rename]

@[simp] theorem rename_awaits :
    (v.rename ρ).awaits thread = (v.awaits thread).map (Await.rename ρ) := rfl

@[simp] theorem rename_releases :
    (v.rename ρ).releases thread = (v.releases thread).map (Release.rename ρ) := rfl

theorem rename_log (e : Event) : (v.log e).rename ρ = (v.rename ρ).log (e.rename ρ) := by
  simp [rename, log]

theorem rename_setCall (task : Option Bool) :
    (v.setCall call task).rename ρ = (v.rename ρ).setCall (ρ call) task := by
  simp [rename, setCall, update_rename]

theorem rename_setSlot (state : SlotState) (armed : Bool) :
    (v.setSlot call state armed).rename ρ = (v.rename ρ).setSlot (ρ call) state armed := by
  simp [rename, setSlot, update_rename]

theorem notify_rename (a : Await) :
    (a.notify call).rename ρ = (a.rename ρ).notify (ρ call) := by
  obtain ⟨c, phase⟩ := a
  cases phase with
  | blocked notified => by_cases hc : c = call <;> simp [Await.notify, Await.rename, hc]
  | _ => rfl

theorem rename_notifyAll :
    (v.notifyAll call).rename ρ = (v.rename ρ).notifyAll (ρ call) := by
  ext1 <;> try rfl
  funext t
  simp [rename, notifyAll, Function.comp_def, notify_rename]

theorem rename_setAwait (a : Option Await) :
    (v.setAwait thread a).rename ρ = (v.rename ρ).setAwait thread (a.map (Await.rename ρ)) := by
  ext1 <;> try rfl
  funext t
  by_cases ht : t = thread <;> simp [rename, setAwait, ht]

theorem rename_endAwait (result : Operation) (published : Bool) :
    (v.endAwait thread call result published).rename ρ =
      (v.rename ρ).endAwait thread (ρ call) result published := by
  rw [endAwait, rename_log, rename_setAwait]
  rfl

theorem rename_setRelease (r : Option Release) :
    (v.setRelease thread r).rename ρ =
      (v.rename ρ).setRelease thread (r.map (Release.rename ρ)) := by
  ext1 <;> try rfl
  funext t
  by_cases ht : t = thread <;> simp [rename, setRelease, ht]

theorem rename_remove : (v.remove call).rename ρ = (v.rename ρ).remove (ρ call) := by
  rw [remove, remove, rename_calls]
  cases v.calls call with
  | none => rfl
  | some task => simp [rename, setCall, update_rename]

theorem rename_settle (outcome : Operation) :
    (v.settle call outcome).rename ρ = (v.rename ρ).settle (ρ call) outcome := by
  rw [settle, settle, rename_slots]
  rcases v.slots call with _ | ⟨_ | _ | _, _⟩
  · rfl
  · simp only [rename_log, rename_notifyAll, rename_setSlot, Event.rename]
  · exact rename_setSlot _ _
  · exact rename_setSlot _ _

theorem rename_closeSlot : (v.closeSlot call).rename ρ = (v.rename ρ).closeSlot (ρ call) := by
  rw [closeSlot, closeSlot, rename_slots]
  rcases v.slots call with _ | ⟨_ | _ | _, _⟩
  · rfl
  · simp only [rename_notifyAll, rename_setSlot]
  · rfl
  · rfl

/-- The private registry does not look at what an identifier is. One case per operation, each by the
lemmas for the changes that it makes. -/
theorem rename_apply (op : Op) : (v.apply op).rename ρ = (v.rename ρ).apply (op.rename ρ) := by
  cases op with
  | fetch call => simp [apply, rename, Op.rename, update_rename]
  | insert call reserved =>
    cases reserved <;>
      simp [apply, rename, Op.rename, Event.rename, update_rename, log, setSlot, setCall]
  | attach call =>
    simp only [apply, Op.rename, rename_calls]
    cases v.calls call with
    | none => exact rename_log _
    | some task => exact rename_setCall _
  | complete call outcome => exact rename_settle _
  | dropGuard call panicking => exact rename_settle _
  | lookup thread call =>
    simp only [apply, Op.rename, rename_calls]
    cases v.calls call with
    | none => exact rename_endAwait _ _
    | some task => exact rename_setAwait _
  | check thread elapsed =>
    simp only [apply, Op.rename, rename_awaits]
    rcases v.awaits thread with _ | ⟨call, _ | _ | _⟩
    · rfl
    · simp only [Option.map_some, Await.rename, rename_slots]
      rcases v.slots call with _ | ⟨_ | _ | _, _⟩
      · rfl
      · cases elapsed
        · exact rename_setAwait _
        · exact rename_endAwait _ _
      · simp only [rename_setAwait, rename_setSlot, Option.map_some, Await.rename]
      · exact rename_setAwait _
    · rfl
    · rfl
  | wake thread =>
    simp only [apply, Op.rename, rename_awaits]
    rcases v.awaits thread with _ | ⟨call, _ | _ | _⟩
    · rfl
    · rfl
    · exact rename_setAwait _
    · rfl
  | retire thread =>
    simp only [apply, Op.rename, rename_awaits]
    rcases v.awaits thread with _ | ⟨call, _ | _ | _⟩
    · rfl
    · rfl
    · rfl
    · simp only [Option.map_some, Await.rename, rename_endAwait, rename_remove]
  | release thread call =>
    simp only [apply, Op.rename, rename_calls]
    cases v.calls call with
    | none => exact rename_log _
    | some task =>
      cases task <;> simp [rename_setRelease, rename_remove, Release.rename]
  | releaseOwner thread calls =>
    simp only [apply, Op.rename, rename_setRelease]
    rfl
  | close thread =>
    simp only [apply, Op.rename, rename_releases]
    rcases v.releases thread with _ | ⟨_ | ⟨call, rest⟩, _ | aborted⟩
    · rfl
    · simp only [rename_log, rename_setRelease, Option.map_none, Option.map_some, Release.rename,
        List.map_nil, Event.rename]
    · simp only [rename_log, rename_setRelease, Option.map_none, Option.map_some, Release.rename,
        List.map_nil, Event.rename]
    · simp only [rename_setRelease, rename_closeSlot, Option.map_some, Release.rename,
        List.map_cons]
    · simp only [rename_setRelease, rename_closeSlot, Option.map_some, Release.rename,
        List.map_cons]
  | registeredCalls => exact rename_log _
  | unregisteredCalls calls =>
    simp only [apply, Op.rename, rename_log, Event.rename, List.filter_map]
    simp [Function.comp_def]

theorem rename_foldl (ops : List Op) :
    (ops.foldl apply v).rename ρ = (ops.map (Op.rename ρ)).foldl apply (v.rename ρ) := by
  induction ops generalizing v with
  | nil => rfl
  | cons op ops ih => rw [List.foldl_cons, ih, rename_apply, List.map_cons, List.foldl_cons]

theorem rename_enabled (op : Op) : (v.rename ρ).Enabled (op.rename ρ) ↔ v.Enabled op := by
  cases op with
  | fetch | attach | registeredCalls | unregisteredCalls => exact Iff.rfl
  | insert call reserved => simp [Enabled, Op.rename, rename]
  | complete call outcome | dropGuard call panicking => simp [Enabled, Op.rename]
  | lookup thread call => simp [Enabled, Op.rename]
  | check thread elapsed =>
    simp only [Enabled, Op.rename, rename_awaits]
    rcases v.awaits thread with _ | ⟨call, _ | _ | _⟩ <;> simp [Await.rename]
  | wake thread =>
    simp only [Enabled, Op.rename, rename_awaits]
    rcases v.awaits thread with _ | ⟨call, _ | _ | _⟩ <;> simp [Await.rename]
  | retire thread =>
    simp only [Enabled, Op.rename, rename_awaits]
    rcases v.awaits thread with _ | ⟨call, _ | _ | _⟩ <;> simp [Await.rename]
  | release thread call => simp [Enabled, Op.rename]
  | releaseOwner thread calls =>
    simp only [Enabled, Op.rename, rename_releases, Option.map_eq_none_iff,
      List.nodup_map_iff ρ.injective]
    refine and_congr_right fun _ => and_congr_right fun _ => ?_
    constructor
    · intro h c
      rw [← List.mem_map_of_injective ρ.injective, h (ρ c), rename_calls]
    · intro h c
      obtain ⟨c, rfl⟩ := ρ.surjective c
      rw [List.mem_map_of_injective ρ.injective, h c, rename_calls]
  | close thread => simp [Enabled, Op.rename]

end View

/-! ## Two histories

The results are stated for two histories of the shared registry, with any other owners in either of
them. Both stay below the bound on identifiers; `isolation_limits` shows that this is needed, and
what the order of a release leaves open. -/

/-- The call is not registered for the owner: it is unknown or another owner's. -/
def State.Foreign (s : State) (o call : Nat) : Prop :=
  ∀ registered, s.calls.find? call = some registered → registered.owner ≠ o

/-- An operation that names a call which is not the owner's gets one answer and changes nothing
else: an await fails as closed, a release succeeds, an attach aborts the task, and the call counts
as unregistered. It is the answer for a call that nobody has registered, so that no owner learns
which identifiers are in use. -/
structure ForeignIgnored (s : State) (o call : Nat) : Prop where
  await : ∀ thread, s.awaits (o, thread) = none → system.step (o, .lookup thread call) s =
    some (s.log o (.returned thread call (.error closedFailure) false))
  release : ∀ thread, s.releases (o, thread) = none → system.step (o, .release thread call) s =
    some (s.log o (.released thread))
  attach : system.step (o, .attach call) s = some (s.log o (.aborted call))
  unregistered : system.step (o, .unregisteredCalls [call]) s =
    some (s.log o (.unregistered [call]))

theorem foreign_ignored (h : s.Foreign o call) : ForeignIgnored s o call  where
  await thread hnone := by
    refine (lookup_miss hnone h).trans ?_
    rw [endAwait, Function.update_eq_self_iff.mpr hnone.symm]
  release thread hnone := by
    simp [system, State.step, hnone, remove_miss h]
  attach := by
    simp only [system, State.step]
    cases hfind : s.calls.find? call with
    | none => rfl
    | some registered => simp [h registered hfind]
  unregistered := by
    simp only [system, State.step]
    cases hfind : s.calls.find? call with
    | none => simp [hfind]
    | some registered => simp [hfind, h registered hfind]

/-- **Isolation of the owners.** Two histories with the same operations of an owner and its
tasks, up to the names of its calls, give the owner the same results and the same count, and
leave it the same steps to take. Whatever names another owner's call is answered as if the call
were unknown. -/
theorem owner_isolated (o : Nat) (ρ : Equiv.Perm Nat) (run₁ run₂ : List (Nat × Op))
    (s₁ s₂ : State) (h₁ : system.replayIf fewCalls run₁ State.init = some s₁)
    (h₂ : system.replayIf fewCalls run₂ State.init = some s₂)
    (hsame : ownOps o run₂ = (ownOps o run₁).map (Op.rename ρ)) :
    s₂.observed o = (s₁.observed o).map (Event.rename ρ) ∧
      s₂.perOwner o = s₁.perOwner o ∧
      (∀ op, (∀ call, op ≠ .fetch call) → ((system.step (o, op) s₁).isSome = true ↔
        (system.step (o, op.rename ρ) s₂).isSome = true)) ∧
      ∀ call, s₁.Foreign o call → ForeignIgnored s₁ o call := by
  obtain ⟨hinv₁, hview₁⟩ := view_replay (o := o) inv_init h₁
  obtain ⟨hinv₂, hview₂⟩ := view_replay (o := o) inv_init h₂
  have hempty : View.empty.rename ρ = View.empty := rfl
  have hview : s₂.view o = (s₁.view o).rename ρ := by
    rw [hview₁, hview₂, hsame, view_init, View.rename_foldl, hempty]
  refine ⟨congrArg View.trace hview, congrArg View.count hview, fun op hop => ?_,
    fun call => foreign_ignored⟩
  have hop' : ∀ call, op.rename ρ ≠ .fetch call := by
    cases op with
    | fetch call => exact absurd rfl (hop call)
    | _ => exact fun _ => nofun
  refine (enabled_iff hinv₁ hop).trans (Iff.trans ?_ (enabled_iff hinv₂ hop').symm)
  rw [hview, View.rename_enabled]

def soloRun : List (Nat × Op) :=
  [(7, .fetch 1), (7, .insert 1 true), (7, .lookup 0 1), (7, .complete 1 (.ok [1])),
    (7, .check 0 false), (7, .retire 0)]

/-- Another owner takes the first identifier, so that the owner's call has the second. -/
def sharedRun : List (Nat × Op) :=
  [(8, .fetch 1), (7, .fetch 2), (8, .insert 1 true), (7, .insert 2 true), (7, .lookup 0 2),
    (8, .release 5 1), (7, .complete 2 (.ok [1])), (7, .check 0 false), (8, .close 5),
    (7, .retire 0)]

theorem owner_isolated_shared :
    ∃ s₁ s₂, system.replayIf fewCalls soloRun State.init = some s₁ ∧
      system.replayIf fewCalls sharedRun State.init = some s₂ ∧
      s₁.observed 7 = [.registered 1, .published 1 (.ok [1]), .returned 0 1 (.ok [1]) true] ∧
      s₂.observed 7 = (s₁.observed 7).map (Event.rename (Equiv.swap 1 2)) := by
  have hsolo : (system.replayIf fewCalls soloRun State.init).map (·.observed 7) =
      some [.registered 1, .published 1 (.ok [1]), .returned 0 1 (.ok [1]) true] := rfl
  have hshared : (system.replayIf fewCalls sharedRun State.init).isSome = true := rfl
  obtain ⟨s₁, h₁, hobserved⟩ := Option.map_eq_some_iff.mp hsolo
  obtain ⟨s₂, h₂⟩ := Option.isSome_iff_exists.mp hshared
  exact ⟨s₁, s₂, h₁, h₂, hobserved,
    (owner_isolated 7 (Equiv.swap 1 2) soloRun sharedRun s₁ s₂ h₁ h₂ rfl).1⟩

theorem replay_fetches (p n : Nat) (s : State) (hn : s.nextCall + n < 2 ^ 64) :
    system.replay ((List.range' s.nextCall n).map fun call => (p, .fetch call)) s =
      some { s with
        nextCall := s.nextCall + n
        fetched := ((List.range' s.nextCall n).map fun call => (p, call)).reverse ++
          s.fetched } := by
  induction n generalizing s with
  | zero => rfl
  | succ n ih =>
    have hmod : (s.nextCall + 1) % 2 ^ 64 = s.nextCall + 1 := Nat.mod_eq_of_lt (by omega)
    have hstep : system.step (p, .fetch s.nextCall) s = some { s with
        nextCall := s.nextCall + 1, fetched := (p, s.nextCall) :: s.fetched } := by
      simp only [system, State.step, hmod, if_true]
    rw [List.range'_succ, List.map_cons, Lib.Transitions.replay, hstep, Option.bind_some]
    have hrest := ih { s with nextCall := s.nextCall + 1, fetched := (p, s.nextCall) :: s.fetched }
      (by dsimp only; omega)
    refine hrest.trans ?_
    simp [Nat.add_comm, Nat.add_left_comm]

/-- With every identifier below the bound taken, the next registration is refused. -/
theorem register_exhausted (o p : Nat) {n : Nat} (hmax : maxCallId = 1 + n) :
    ∃ s, system.replay (((List.range' 1 n).map fun call => (p, .fetch call)) ++
        [(o, .fetch (1 + n)), (o, .insert (1 + n) true), (o, .registeredCalls)]) State.init =
          some s ∧
      s.observed o = [.refused exhaustedFailure, .counted 0] := by
  have hlt : 1 + n < 2 ^ 64 := hmax ▸ (by decide : maxCallId < 2 ^ 64)
  have hfetches := replay_fetches p n State.init hlt
  rw [show State.init.nextCall = 1 from rfl] at hfetches
  rw [Lib.Transitions.replay_append, hfetches]
  simp [Lib.Transitions.replay, system, State.step, hmax, State.log, State.observed, State.init]

/-- An await holds the first of two calls while all are released, in the order given, and checks
after one was closed. -/
def closingRun (calls : List Nat) : List (Nat × Op) :=
  [(7, .fetch 1), (7, .insert 1 true), (7, .fetch 2), (7, .insert 2 true), (7, .lookup 0 1),
    (7, .releaseOwner 1 calls), (7, .close 1), (7, .check 0 true)]

/-- Another owner's registrations can exhaust the identifiers, and the owner's is refused then;
and what an await returns depends on the order in which `release_owner` closes the calls. -/
theorem isolation_limits :
    (∃ run₁ run₂ s₁ s₂ ρ, system.replay run₁ State.init = some s₁ ∧
      system.replay run₂ State.init = some s₂ ∧
      ownOps 7 run₂ = (ownOps 7 run₁).map (Op.rename ρ) ∧
      s₁.observed 7 = [.registered 1, .counted 1] ∧
      s₂.observed 7 = [.refused exhaustedFailure, .counted 0]) ∧
    (system.replay (closingRun [1, 2] ++ [(7, .retire 0)]) State.init).map (·.observed 7) =
      some [.registered 1, .registered 2, .returned 0 1 (.error closedFailure) false] ∧
    (system.replay (closingRun [2, 1]) State.init).map (·.observed 7) =
      some [.registered 1, .registered 2, .returned 0 1 (.error notReadyFailure) false] := by
  refine ⟨?_, rfl, rfl⟩
  obtain ⟨n, hn⟩ : ∃ n, maxCallId = 1 + n := ⟨maxCallId - 1, by decide⟩
  obtain ⟨s₂, hrun, hobserved⟩ := register_exhausted 7 8 hn
  refine ⟨[(7, .fetch 1), (7, .insert 1 true), (7, .registeredCalls)], _, _, s₂,
    Equiv.swap 1 (1 + n), rfl, hrun, ?_, rfl, hobserved⟩
  have hnone : ((List.range' 1 n).map fun call => ((8 : Nat), Op.fetch call)).filter (·.1 = 7) =
      [] := by
    refine List.filter_eq_nil_iff.mpr fun label hlabel => ?_
    obtain ⟨call, -, rfl⟩ := List.mem_map.mp hlabel
    simp
  simp [ownOps, hnone, Op.rename]

end OcamlTemporal.Bridge.ClientCalls
