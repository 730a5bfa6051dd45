import Mathlib.Data.List.Induction
import Mathlib.Data.List.Nodup

/-!
# OcamlTemporal.Lib.History

Logs whose every event is explained by the events before it. A safety property of
a run is often of this shape: a system that records what it does may record an
event only if the log so far allows it. **`Justified`** says so of a whole log;
`Justified.snoc` is the rule for proving it along a run, one recorded event after the
other.
-/

namespace OcamlTemporal.Lib

variable {E : Type*} {ok : List E → E → Prop} {log more : List E} {e : E}

/-- An event of an extended log is an event of the log or of the extension. -/
theorem split_append {before after : List E} (h : log ++ more = before ++ e :: after) :
    (∃ rest, log = before ++ e :: rest ∧ after = rest ++ more) ∨
    ∃ rest, before = log ++ rest ∧ more = rest ++ e :: after := by
  rcases List.append_eq_append_iff.mp h with ⟨rest, hbefore, hmore⟩ | ⟨rest, hlog, hafter⟩
  · exact .inr ⟨rest, hbefore, hmore⟩
  · cases rest with
    | nil => exact .inr ⟨[], by simpa using hlog.symm, by simpa using hafter.symm⟩
    | cons e' rest =>
      obtain ⟨rfl, rfl⟩ := List.cons.inj hafter
      exact .inl ⟨rest, hlog, rfl⟩

/-- An event of a log that was extended by one is an event of the log or the new one. -/
theorem split_snoc {e' : E} {before after : List E} (h : log ++ [e'] = before ++ e :: after) :
    (∃ rest, log = before ++ e :: rest ∧ after = rest ++ [e']) ∨
    (before = log ∧ e = e' ∧ after = []) := by
  rcases split_append h with hold | ⟨rest, hbefore, hsingle⟩
  · exact .inl hold
  · cases rest with
    | nil =>
      obtain ⟨rfl, rfl⟩ := List.cons.inj hsingle
      exact .inr ⟨by simpa using hbefore, rfl, rfl⟩
    | cons => simp at hsingle

theorem filterMap_snoc {V : Type*} (f : E → Option V) (log : List E) (e : E) :
    (log ++ [e]).filterMap f = log.filterMap f ++ (f e).toList := by
  rw [List.filterMap_append]
  cases h : f e with
  | none => simp [h]
  | some v => simp [h]

/-- Every event of the log is allowed by the events before it. -/
def Justified (ok : List E → E → Prop) (log : List E) : Prop :=
  ∀ before e after, log = before ++ e :: after → ok before e

namespace Justified

theorem nil : Justified ok [] := by
  intro before e after h
  simp at h

theorem of_append (h : Justified ok (log ++ more)) : Justified ok log := by
  intro before e after heq
  refine h before e (after ++ more) ?_
  rw [heq, List.append_assoc, List.cons_append]

theorem of_mem (h : Justified ok log) (he : e ∈ log) : ∃ before, before ⊆ log ∧ ok before e := by
  obtain ⟨before, after, hlog⟩ := List.append_of_mem he
  exact ⟨before, hlog ▸ List.subset_append_left _ _, h before e after hlog⟩

theorem snoc (h : Justified ok log) (he : ok log e) : Justified ok (log ++ [e]) := by
  intro before e' after heq
  rcases split_snoc heq with ⟨rest, hlog, -⟩ | ⟨rfl, rfl, -⟩
  · exact h before e' rest hlog
  · exact he

end Justified

end OcamlTemporal.Lib
