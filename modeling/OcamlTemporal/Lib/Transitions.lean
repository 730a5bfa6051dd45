import Mathlib.Logic.Relation

/-!
# OcamlTemporal.Lib.Transitions

**Labelled transition systems**, for programs whose threads interleave: a state,
the states a run may start in, and for every label the atomic step it stands for,
where that step is enabled. A run is any sequence of enabled steps, so what holds
of every reachable state holds under every schedule.

* `Transitions.Reachable.invariant` is the invariant rule; the step case may use
  that the state it starts from is reachable, so that an invariant can build on
  those proved before it.
* `Transitions.Reachable.project` carries reachability from a system to one it is
  built on: every step of the first is a run of the second.
* `Transitions.Reachable.replay` follows a schedule written down as labels.
* `Transitions.ReachableIf` are the runs whose every step meets a condition on the
  state before it and its label: what an environment that keeps a contract can do.
-/

namespace OcamlTemporal.Lib

universe u v w

/-- A system with states `S` and steps labelled by `L`. -/
structure Transitions (S : Type u) (L : Type v) where
  start : S → Prop
  step : L → S → Option S

namespace Transitions

variable {S : Type u} {L : Type v} (T : Transitions S L)

def Steps (s s' : S) : Prop := ∃ l, T.step l s = some s'

/-- Some run leads to the state. -/
inductive Reachable : S → Prop
  | start {s : S} (h : T.start s) : Reachable s
  | step {s s' : S} (l : L) (hs : Reachable s) (h : T.step l s = some s') : Reachable s'

/-- The state after the steps of a schedule, if all of them are enabled. -/
def replay : List L → S → Option S
  | [], s => some s
  | l :: ls, s => (T.step l s).bind (replay ls)

/-- Some run leads to the state whose every step meets the condition. -/
inductive ReachableIf (ok : S → L → Prop) : S → Prop
  | start {s : S} (h : T.start s) : ReachableIf ok s
  | step {s s' : S} (l : L) (hs : ReachableIf ok s) (hok : ok s l) (h : T.step l s = some s') :
      ReachableIf ok s'

/-- The state after the steps of a schedule, if all of them are enabled and meet the
condition. -/
def replayIf (ok : S → L → Prop) [∀ s l, Decidable (ok s l)] : List L → S → Option S
  | [], s => some s
  | l :: ls, s => if ok s l then (T.step l s).bind (replayIf ok ls) else none

variable {T}

theorem replay_append (ls ls' : List L) (s : S) :
    T.replay (ls ++ ls') s = (T.replay ls s).bind (T.replay ls') := by
  induction ls generalizing s with
  | nil => rfl
  | cons l ls ih =>
    rw [List.cons_append, replay, replay, Option.bind_assoc]
    exact congrArg _ (funext ih)

namespace Reachable

/-- **Invariant rule.** What holds at the start and is kept by every step from a
reachable state holds in every reachable state. -/
theorem invariant {I : S → Prop} (hstart : ∀ s, T.start s → I s)
    (hstep : ∀ l s s', T.Reachable s → I s → T.step l s = some s' → I s')
    {s : S} (hs : T.Reachable s) : I s := by
  induction hs with
  | start h => exact hstart _ h
  | step l hs h ih => exact hstep l _ _ hs ih h

theorem trans {s s' : S} (hs : T.Reachable s) (h : Relation.ReflTransGen T.Steps s s') :
    T.Reachable s' := by
  induction h with
  | refl => exact hs
  | tail _ h ih =>
    obtain ⟨l, h⟩ := h
    exact ih.step l h

/-- **Projection rule.** If the starts of a system are seen as starts of another
and its steps as runs of the other, its reachable states are seen as reachable
states of the other. -/
theorem project {S' : Type w} {L' : Type v} {T' : Transitions S' L'} (f : S → S')
    (hstart : ∀ s, T.start s → T'.start (f s))
    (hstep : ∀ l s s', T.Reachable s → T.step l s = some s' →
      Relation.ReflTransGen T'.Steps (f s) (f s'))
    {s : S} (hs : T.Reachable s) : T'.Reachable (f s) := by
  induction hs with
  | start h => exact .start (hstart _ h)
  | step l hs h ih => exact ih.trans (hstep l _ _ hs h)

theorem replay {ls : List L} {s s' : S} (hs : T.Reachable s) (h : T.replay ls s = some s') :
    T.Reachable s' := by
  induction ls generalizing s with
  | nil =>
    obtain rfl := Option.some.inj h
    exact hs
  | cons l ls ih =>
    obtain ⟨m, hm, hrest⟩ := Option.bind_eq_some_iff.mp h
    exact ih (hs.step l hm) hrest

end Reachable

namespace ReachableIf

variable {ok : S → L → Prop}

theorem invariant {I : S → Prop} (hstart : ∀ s, T.start s → I s)
    (hstep : ∀ l s s', T.ReachableIf ok s → I s → ok s l → T.step l s = some s' → I s')
    {s : S} (hs : T.ReachableIf ok s) : I s := by
  induction hs with
  | start h => exact hstart _ h
  | step l hs hok h ih => exact hstep l _ _ hs ih hok h

theorem reachable {s : S} (hs : T.ReachableIf ok s) : T.Reachable s := by
  induction hs with
  | start h => exact .start h
  | step l _ _ h ih => exact ih.step l h

theorem replay [∀ s l, Decidable (ok s l)] {ls : List L} {s s' : S} (hs : T.ReachableIf ok s)
    (h : T.replayIf ok ls s = some s') : T.ReachableIf ok s' := by
  induction ls generalizing s with
  | nil =>
    obtain rfl := Option.some.inj h
    exact hs
  | cons l ls ih =>
    rw [replayIf] at h
    split at h
    · rename_i hok
      obtain ⟨m, hm, hrest⟩ := Option.bind_eq_some_iff.mp h
      exact ih (hs.step l hok hm) hrest
    · cases h

end ReachableIf

end Transitions

end OcamlTemporal.Lib
