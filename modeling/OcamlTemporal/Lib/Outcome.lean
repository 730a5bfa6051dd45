import Mathlib.Data.List.Forall2
import Mathlib.Data.List.Perm.Basic

/-!
# OcamlTemporal.Lib.Outcome

Reasoning about computations that may fail (`Except`), by what they return if they do not.

* `Sim P x y`: whatever `x` returns, `y` returns too, and it has the property `P`. The two may
  fail in different ways, and `y` may succeed where `x` fails.
* The rules follow the `do` notation: `Sim.bind`, `Sim.pure` and `Sim.guard`.
-/

namespace OcamlTemporal.Lib

universe u v w

variable {ε : Type u} {ε' : Type v} {α β : Type w}

theorem bind_ok {x : Except ε α} {f : α → Except ε β} {b : β} :
    (x >>= f) = .ok b ↔ ∃ a, x = .ok a ∧ f a = .ok b := by
  cases x with
  | error e =>
    constructor
    · intro h
      exact nomatch h
    · rintro ⟨a, h, -⟩
      exact nomatch h
  | ok a =>
    constructor
    · intro h
      exact ⟨a, rfl, h⟩
    · rintro ⟨a', h, hf⟩
      cases h
      exact hf

theorem exists_of_isOk {x : Except ε α} (h : x.isOk = true) : ∃ a, x = .ok a := by
  cases x with
  | error e => exact nomatch h
  | ok a => exact ⟨a, rfl⟩

/-- What `x` returns `y` returns as well, and it has the property `P`. -/
def Sim (P : α → Prop) (x : Except ε α) (y : Except ε' α) : Prop :=
  ∀ a, x = .ok a → y = .ok a ∧ P a

namespace Sim

variable {P : α → Prop} {R : β → Prop} {x : Except ε α} {y : Except ε' α}

theorem rfl : Sim (fun _ => True) x x := fun _ h => ⟨h, trivial⟩

theorem of_throw {e : ε} : Sim P (throw e) y := fun _ h => nomatch h

theorem pure {a : α} (h : P a) : Sim P (pure a : Except ε α) (pure a : Except ε' α) := by
  intro b hb
  cases hb
  exact ⟨Eq.refl _, h⟩

theorem bind {f : α → Except ε β} {g : α → Except ε' β} (h : Sim P x y)
    (hf : ∀ a, P a → Sim R (f a) (g a)) : Sim R (x >>= f) (y >>= g) := by
  intro b hb
  obtain ⟨a, ha, hb⟩ := bind_ok.mp hb
  obtain ⟨hy, hP⟩ := h a ha
  obtain ⟨hg, hR⟩ := hf a hP b hb
  exact ⟨bind_ok.mpr ⟨a, hy, hg⟩, hR⟩

theorem guard {c : Prop} [Decidable c] {e : ε} (h : ¬ c → Sim P x y) :
    Sim P (if c then throw e else x) y := by
  by_cases hc : c
  · rw [if_pos hc]
    exact of_throw
  · rw [if_neg hc]
    exact h hc

end Sim

end OcamlTemporal.Lib
