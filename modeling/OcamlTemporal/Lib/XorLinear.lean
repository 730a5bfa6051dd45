import Mathlib.Data.Fintype.Card
import Mathlib.Logic.Function.Iterate

/-!
# OcamlTemporal.Lib.XorLinear

Maps on words that commute with `xor`, which are the linear maps over the field of
two elements.

* `XorLinear.injective`: such a map is injective if only zero is mapped to zero;
  `eq_zero_of_xor_shiftLeft` and `eq_zero_of_xor_shiftRight` say so of a word
  combined with its own shift.
* `XorLinear.eq_zero`: it is zero if it is zero on every power of two, so an identity
  between linear maps is decided by finitely many values.
* `exists_getLsbD_false`: if an odd number of iterates of a map sum up to zero, no bit
  stays set along them.
-/

namespace OcamlTemporal.Lib

variable {w : Nat}

/-- The map commutes with `xor`. -/
def XorLinear (f : BitVec w → BitVec w) : Prop := ∀ x y, f (x ^^^ y) = f x ^^^ f y

namespace XorLinear

variable {f g : BitVec w → BitVec w}

theorem map_zero (hf : XorLinear f) : f 0#w = 0#w := by
  have h := hf 0#w 0#w
  rwa [BitVec.xor_self, BitVec.xor_self] at h

theorem id : XorLinear fun x : BitVec w => x := fun _ _ => rfl

theorem zero : XorLinear fun _ : BitVec w => 0#w := fun _ _ => BitVec.xor_self.symm

theorem shiftLeft (k : Nat) : XorLinear fun x : BitVec w => x <<< k :=
  fun x y => BitVec.shiftLeft_xor_distrib x y k

theorem shiftRight (k : Nat) : XorLinear fun x : BitVec w => x >>> k :=
  fun x y => BitVec.ushiftRight_xor_distrib x y k

theorem xor (hf : XorLinear f) (hg : XorLinear g) : XorLinear fun x => f x ^^^ g x := by
  intro x y
  dsimp only
  rw [hf, hg, BitVec.xor_assoc, BitVec.xor_assoc, ← BitVec.xor_assoc (f y), BitVec.xor_comm (f y),
    BitVec.xor_assoc]

theorem comp (hf : XorLinear f) (hg : XorLinear g) : XorLinear fun x => f (g x) := by
  intro x y
  dsimp only
  rw [hg, hf]

theorem injective (hf : XorLinear f) (h : ∀ x, f x = 0#w → x = 0#w) : Function.Injective f := by
  intro x y hxy
  have hzero : f (x ^^^ y) = 0#w := by
    rw [hf, hxy, BitVec.xor_self]
  exact BitVec.xor_eq_zero_iff.mp (h _ hzero)

/-- By induction on the number of bits that may be set. -/
theorem eq_zero (hf : XorLinear f) (h : ∀ i < w, f (BitVec.twoPow w i) = 0#w) (x : BitVec w) :
    f x = 0#w := by
  have hbits : ∀ n ≤ w, ∀ x : BitVec w, (∀ i, n ≤ i → x.getLsbD i = false) → f x = 0#w := by
    intro n
    induction n with
    | zero =>
      intro _ x hx
      have hzero : x = 0#w := BitVec.eq_of_getLsbD_eq fun i _ => by
        rw [hx i (Nat.zero_le i), BitVec.getLsbD_zero]
      rw [hzero, hf.map_zero]
    | succ n ih =>
      intro hn x hx
      cases hbit : x.getLsbD n with
      | false =>
        refine ih (by omega) x fun i hi => ?_
        rcases Nat.lt_or_eq_of_le hi with hi | rfl
        · exact hx i hi
        · exact hbit
      | true =>
        have hlow : f (x ^^^ BitVec.twoPow w n) = 0#w := by
          refine ih (by omega) _ fun i hi => ?_
          rw [BitVec.getLsbD_xor, BitVec.getLsbD_twoPow]
          rcases Nat.lt_or_eq_of_le hi with hi | rfl
          · rw [hx i hi]
            simp only [Bool.false_xor, Bool.and_eq_false_imp, decide_eq_true_eq,
              decide_eq_false_iff_not]
            omega
          · rw [hbit]
            simp only [decide_true, Bool.and_true, Bool.true_xor, Bool.not_eq_false',
              decide_eq_true_eq]
            omega
        rw [hf, h n hn, BitVec.xor_zero] at hlow
        exact hlow
  exact hbits w (Nat.le_refl w) x fun i hi => BitVec.getLsbD_of_ge x i hi

end XorLinear

/-! ## A word and its own shift -/

theorem eq_zero_of_xor_shiftLeft {k : Nat} (hk : 0 < k) {x : BitVec w} (h : x ^^^ x <<< k = 0#w) :
    x = 0#w := by
  have hshift : x = x <<< k := BitVec.xor_eq_zero_iff.mp h
  refine BitVec.eq_of_getLsbD_eq fun i _ => ?_
  rw [BitVec.getLsbD_zero]
  induction i using Nat.strongRecOn with
  | _ i ih =>
    rw [hshift, BitVec.getLsbD_shiftLeft]
    by_cases hi : i < k
    · rw [decide_eq_true hi, Bool.not_true, Bool.and_false, Bool.false_and]
    · rw [ih (i - k) (by omega) (by omega), Bool.and_false]

theorem eq_zero_of_xor_shiftRight {k : Nat} (hk : 0 < k) {x : BitVec w}
    (h : x ^^^ x >>> k = 0#w) : x = 0#w := by
  have hshift : x = x >>> k := BitVec.xor_eq_zero_iff.mp h
  refine BitVec.eq_of_getLsbD_eq fun i hi => ?_
  rw [BitVec.getLsbD_zero]
  -- the bits above the last one are clear, and each bit is one above it
  induction hn : w - i using Nat.strongRecOn generalizing i with
  | _ n ih =>
    rw [hshift, BitVec.getLsbD_ushiftRight]
    by_cases hlast : k + i < w
    · exact ih (w - (k + i)) (by omega) (k + i) hlast rfl
    · exact BitVec.getLsbD_of_ge x _ (by omega)

/-! ## Sums of iterates -/

def iterateSum (f : BitVec w → BitVec w) : List Bool → BitVec w → BitVec w
  | [], _ => 0#w
  | marked :: rest, x => (if marked then x else 0#w) ^^^ iterateSum f rest (f x)

theorem XorLinear.iterateSum {f : BitVec w → BitVec w} (hf : XorLinear f) (marks : List Bool) :
    XorLinear (iterateSum f marks) := by
  induction marks with
  | nil => exact XorLinear.zero
  | cons marked rest ih =>
    refine XorLinear.xor ?_ (ih.comp hf)
    cases marked with
    | true => exact XorLinear.id
    | false => exact XorLinear.zero

def parity (marks : List Bool) : Bool := marks.foldr Bool.xor false

theorem getLsbD_iterateSum {f : BitVec w → BitVec w} {i : Nat} (marks : List Bool) (x : BitVec w)
    (h : ∀ k < marks.length, (f^[k] x).getLsbD i = true) :
    (iterateSum f marks x).getLsbD i = parity marks := by
  induction marks generalizing x with
  | nil => exact BitVec.getLsbD_zero
  | cons marked rest ih =>
    have hx : x.getLsbD i = true := h 0 (Nat.succ_pos _)
    have hrest := ih (f x) fun k hk => by
      rw [← Function.iterate_succ_apply]
      exact h (k + 1) (Nat.succ_lt_succ hk)
    rw [iterateSum, BitVec.getLsbD_xor, hrest]
    cases marked with
    | true =>
      rw [if_pos rfl, hx]
      rfl
    | false =>
      rw [if_neg Bool.false_ne_true, BitVec.getLsbD_zero]
      rfl

/-- If an odd number of iterates sum up to zero, one of them has the bit clear. -/
theorem exists_getLsbD_false {f : BitVec w → BitVec w} {marks : List Bool}
    (hodd : parity marks = true) (hsum : ∀ x, iterateSum f marks x = 0#w) (x : BitVec w) (i : Nat) :
    ∃ k < marks.length, (f^[k] x).getLsbD i = false := by
  by_contra hall
  have hset : ∀ k < marks.length, (f^[k] x).getLsbD i = true := fun k hk =>
    Bool.eq_true_of_not_eq_false fun hfalse => hall ⟨k, hk, hfalse⟩
  have hbit := getLsbD_iterateSum marks x hset
  rw [hsum, BitVec.getLsbD_zero, hodd] at hbit
  cases hbit

end OcamlTemporal.Lib
