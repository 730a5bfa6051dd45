import Mathlib.Logic.Basic

/-!
# OcamlTemporal.Lib.Triple

Pre- and postconditions of programs with a state and exceptions (`EStateM`). The state
that an exception leaves behind is kept, so there are two postconditions:
`Triple P m Q E` says that from a state with `P` the program `m` either returns with
`Q` or raises with `E`.
-/

namespace OcamlTemporal.Lib

universe u

variable {ε σ α β : Type u}

/-- From a state with `P`, the program returns with `Q` or raises with `E`. -/
def Triple (P : σ → Prop) (m : EStateM ε σ α) (Q : α → σ → Prop) (E : ε → σ → Prop) : Prop :=
  ∀ s, P s →
    match m s with
    | .ok a s' => Q a s'
    | .error e s' => E e s'

namespace Triple

variable {P P' : σ → Prop} {Q Q' : α → σ → Prop} {R : β → σ → Prop} {E E' : ε → σ → Prop}
  {m : EStateM ε σ α}

theorem pre (h : Triple P m Q E) (hpre : ∀ s, P' s → P s) : Triple P' m Q E :=
  fun s hs => h s (hpre s hs)

theorem post (h : Triple P m Q E) (hpost : ∀ a s, Q a s → Q' a s) (hexn : ∀ e s, E e s → E' e s) :
    Triple P m Q' E' := by
  intro s hs
  have hm := h s hs
  cases hrun : m s with
  | ok a s' =>
    rw [hrun] at hm
    exact hpost a s' hm
  | error e s' =>
    rw [hrun] at hm
    exact hexn e s' hm

theorem pure {a : α} (h : ∀ s, P s → Q a s) : Triple P (pure a : EStateM ε σ α) Q E :=
  fun s hs => h s hs

theorem throw {e : ε} (h : ∀ s, P s → E e s) : Triple P (throw e : EStateM ε σ α) Q E :=
  fun s hs => h s hs

theorem modify {f : σ → σ} {Q : PUnit → σ → Prop} (h : ∀ s, P s → Q ⟨⟩ (f s)) :
    Triple P (modify f : EStateM ε σ PUnit) Q E :=
  fun s hs => h s hs

theorem bind {f : α → EStateM ε σ β} (h : Triple P m Q E) (hf : ∀ a, Triple (Q a) (f a) R E) :
    Triple P (m >>= f) R E := by
  intro s hs
  have hm := h s hs
  change match EStateM.bind m f s with
    | .ok a s' => R a s'
    | .error e s' => E e s'
  unfold EStateM.bind
  cases hrun : m s with
  | ok a s' =>
    rw [hrun] at hm
    exact hf a s' hm
  | error e s' =>
    rw [hrun] at hm
    exact hm

/-- A handler runs from the state that the exception left. -/
theorem tryCatch {handler : ε → EStateM ε σ α} (h : Triple P m Q E)
    (hhandler : ∀ e, Triple (E e) (handler e) Q E') :
    Triple P (tryCatch m handler) Q E' := by
  intro s hs
  have hm := h s hs
  change match EStateM.tryCatch m handler s with
    | .ok a s' => Q a s'
    | .error e s' => E' e s'
  unfold EStateM.tryCatch
  cases hrun : m s with
  | ok a s' =>
    rw [hrun] at hm
    exact hm
  | error e s' =>
    rw [hrun] at hm
    exact hhandler e s' hm

end Triple

end OcamlTemporal.Lib
