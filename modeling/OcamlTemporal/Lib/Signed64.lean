import Mathlib

/-!
# OcamlTemporal.Lib.Signed64

Signed 64-bit arithmetic that does not wrap around: where the exact result is
representable, the operation on words gives it.
-/

namespace OcamlTemporal.Lib

def Representable (n : Int) : Prop := -2 ^ 63 ≤ n ∧ n < 2 ^ 63

namespace Representable

theorem bmod_eq {n : Int} (h : Representable n) : n.bmod (2 ^ 64) = n :=
  Int.bmod_eq_of_le (by have := h.1; omega) (by have := h.2; omega)

variable {a b : Int64}

theorem toInt_ofInt {n : Int} (h : Representable n) : (Int64.ofInt n).toInt = n :=
  Int64.toInt_ofInt_of_le h.1 h.2

theorem toInt_add (h : Representable (a.toInt + b.toInt)) :
    (a + b).toInt = a.toInt + b.toInt := by
  rw [Int64.toInt_add, h.bmod_eq]

theorem toInt_sub (h : Representable (a.toInt - b.toInt)) :
    (a - b).toInt = a.toInt - b.toInt := by
  rw [Int64.toInt_sub, h.bmod_eq]

theorem toInt_mul (h : Representable (a.toInt * b.toInt)) :
    (a * b).toInt = a.toInt * b.toInt := by
  rw [Int64.toInt_mul, h.bmod_eq]

end Representable

/-- Division by a positive number is exact for every dividend from zero on. -/
theorem toInt_div_of_nonneg {a b : Int64} (ha : 0 ≤ a.toInt) (hb : 0 < b.toInt) :
    (a / b).toInt = a.toInt / b.toInt := by
  have hle : a.toInt / b.toInt ≤ a.toInt := Int.ediv_le_self _ ha
  have hpos : 0 ≤ a.toInt / b.toInt := Int.ediv_nonneg ha (Int.le_of_lt hb)
  have hlt := a.toInt_lt
  rw [Int64.toInt_div, Int.tdiv_eq_ediv_of_nonneg ha]
  exact Representable.bmod_eq ⟨by omega, by omega⟩

theorem toInt_mod_of_nonneg {a b : Int64} (ha : 0 ≤ a.toInt) :
    (a % b).toInt = a.toInt % b.toInt := by
  rw [Int64.toInt_mod, Int.tmod_eq_emod_of_nonneg ha]

end OcamlTemporal.Lib
