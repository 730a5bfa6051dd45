import OcamlTemporal.Lib.History

/-!
# OcamlTemporal.Lib.Protocol

A **protocol** is a labelled transition relation read as a specification of logs:
a log follows it if its events lead, one after the other, from the initial state to
some state. What the protocol means for a log is then proved once, about the
relation alone, whatever system writes the log.
-/

namespace OcamlTemporal.Lib

variable {S E : Type*} {step : S → E → S → Prop}

/-- The events of a log lead from `s` to the given state, oldest first. -/
inductive Follows (step : S → E → S → Prop) (s : S) : List E → S → Prop
  | nil : Follows step s [] s
  | snoc {log : List E} {m s' : S} {e : E} (h : Follows step s log m) (he : step m e s') :
      Follows step s (log ++ [e]) s'

namespace Follows

theorem append {s m s' : S} {log more : List E} (h : Follows step s log m)
    (h' : Follows step m more s') : Follows step s (log ++ more) s' := by
  induction h' with
  | nil => rwa [List.append_nil]
  | snoc _ he ih =>
    rw [← List.append_assoc]
    exact ih.snoc he

theorem cons {s m s' : S} {log : List E} {e : E} (he : step s e m)
    (h : Follows step m log s') : Follows step s (e :: log) s' :=
  append (nil.snoc he) h

/-- A log that follows the protocol does so up to each of its events. -/
theorem split {s s' : S} {log before after : List E} {e : E} (h : Follows step s log s')
    (heq : log = before ++ e :: after) :
    ∃ m m', Follows step s before m ∧ step m e m' ∧ Follows step m' after s' := by
  induction h generalizing after with
  | nil => simp at heq
  | snoc h he ih =>
    rcases split_append heq with ⟨rest, rfl, rfl⟩ | ⟨rest, rfl, hmore⟩
    · obtain ⟨m, m', hm, hm', hrest⟩ := ih rfl
      exact ⟨m, m', hm, hm', hrest.snoc he⟩
    · -- The event is the last one.
      cases rest with
      | nil =>
        obtain ⟨rfl, rfl⟩ := List.cons.inj hmore
        exact ⟨_, _, by rwa [List.append_nil], he, .nil⟩
      | cons => simp at hmore

end Follows

end OcamlTemporal.Lib
