import Mathlib
import OcamlTemporal.Lib.SelfDelimiting

/-!
# OcamlTemporal.Lib.Decimal

Numbers in decimal notation, over any alphabet of digits (characters or bytes).

* `numeralValue` reads a text of digits; `lt_iff_numeralValue_lt` says that texts of one length are
  ordered as their numbers, which is how a program compares numbers that it does not want to parse.
* `decimal_numeralValue`: a text without a leading zero is the notation of its number.
-/

namespace OcamlTemporal.Lib

universe u

section Value

variable {α : Type u} (digit : α → Nat)

def numeralValue (l : List α) : Nat := l.foldl (fun n a => n * 10 + digit a) 0

variable {digit} {l l' : List α}

theorem numeralValue_append (l l' : List α) :
    numeralValue digit (l ++ l') = numeralValue digit l * 10 ^ l'.length +
      numeralValue digit l' := by
  induction l' using List.reverseRecOn with
  | nil => simp [numeralValue]
  | append_singleton l' a ih =>
    have hsnoc : ∀ x, numeralValue digit (x ++ [a]) = numeralValue digit x * 10 + digit a :=
      fun x => by
      simp [numeralValue]
    rw [← List.append_assoc, hsnoc, ih, hsnoc, List.length_append, List.length_singleton, pow_succ]
    ring

theorem numeralValue_concat (l : List α) (a : α) :
    numeralValue digit (l ++ [a]) = numeralValue digit l * 10 + digit a := by
  simp [numeralValue]

theorem numeralValue_cons (a : α) (l : List α) :
    numeralValue digit (a :: l) = digit a * 10 ^ l.length + numeralValue digit l := by
  rw [← List.singleton_append, numeralValue_append]
  simp [numeralValue]

theorem numeralValue_lt (h : ∀ a ∈ l, digit a < 10) : numeralValue digit l < 10 ^ l.length := by
  induction l with
  | nil => simp [numeralValue]
  | cons a l ih =>
    have hrest := ih fun b hb => h b (List.mem_cons_of_mem _ hb)
    have ha : (digit a + 1) * 10 ^ l.length ≤ 10 * 10 ^ l.length :=
      Nat.mul_le_mul_right _ (h a List.mem_cons_self)
    rw [numeralValue_cons, List.length_cons, pow_succ]
    linarith

/-- Texts of one length are ordered as their numbers. -/
theorem lt_iff_numeralValue_lt [LT α] (hlength : l.length = l'.length) (h : ∀ a ∈ l, digit a < 10)
    (h' : ∀ a ∈ l', digit a < 10)
    (horder : ∀ a ∈ l, ∀ b ∈ l', (a < b ↔ digit a < digit b) ∧ (digit a = digit b → a = b)) :
    l < l' ↔ numeralValue digit l < numeralValue digit l' := by
  induction l generalizing l' with
  | nil =>
    cases l' with
    | nil => simp [numeralValue]
    | cons b l' => simp at hlength
  | cons a l ih =>
    cases l' with
    | nil => simp at hlength
    | cons b l' =>
      have hlen : l.length = l'.length := by simpa using hlength
      have hl := numeralValue_lt fun c hc => h c (List.mem_cons_of_mem _ hc)
      have hl' := numeralValue_lt fun c hc => h' c (List.mem_cons_of_mem _ hc)
      have hrest := ih hlen (fun c hc => h c (List.mem_cons_of_mem _ hc))
        (fun c hc => h' c (List.mem_cons_of_mem _ hc))
        fun c hc d hd => horder c (List.mem_cons_of_mem _ hc) d (List.mem_cons_of_mem _ hd)
      obtain ⟨hlt, heq⟩ := horder a List.mem_cons_self b List.mem_cons_self
      rw [List.cons_lt_cons_iff, hlt, hrest, numeralValue_cons, numeralValue_cons, ← hlen]
      rw [← hlen] at hl'
      rcases Nat.lt_trichotomy (digit a) (digit b) with hab | hab | hab
      · have hstep : (digit a + 1) * 10 ^ l.length ≤ digit b * 10 ^ l.length :=
          Nat.mul_le_mul_right _ hab
        exact iff_of_true (.inl hab) (by linarith)
      · rw [hab]
        simp [heq hab]
      · have hstep : (digit b + 1) * 10 ^ l.length ≤ digit a * 10 ^ l.length :=
          Nat.mul_le_mul_right _ hab
        refine iff_of_false ?_ (by linarith)
        rintro (hba | ⟨rfl, -⟩)
        · exact absurd hba (Nat.not_lt_of_lt hab)
        · exact absurd hab (Nat.lt_irrefl _)

end Value

/-! ## Bytes -/

def byteDigit (b : UInt8) : Nat := b.toNat - 48

def charDigit (c : Char) : Nat := c.toNat - '0'.toNat

theorem numeralValue_toDigits (n : Nat) : numeralValue charDigit (Nat.toDigits 10 n) = n := by
  have hfold : ∀ (l : List Char) (m : Nat),
      l.foldl (fun n c => n * 10 + charDigit c) m = Nat.ofDigitChars 10 l m := by
    intro l
    induction l with
    | nil => exact fun m => rfl
    | cons c l ih =>
      intro m
      rw [List.foldl_cons, ih, Nat.ofDigitChars_cons, Nat.mul_comm m 10, charDigit]
  exact (hfold _ 0).trans Nat.ofDigitChars_ten_toDigits

theorem numeralValue_decimal (n : Nat) : numeralValue byteDigit (decimal n) = n := by
  conv => rhs; rw [← numeralValue_toDigits n]
  rw [numeralValue, numeralValue, decimal, List.foldl_map]
  refine List.foldl_ext _ _ _ fun m c hc => ?_
  have hbyte := toUInt8_toNat_of_isDigit (Nat.isDigit_of_mem_toDigits (by decide) (by decide) hc)
  rw [byteDigit, charDigit, hbyte.1]
  rfl

/-- A notation has no leading zero. -/
theorem head?_toDigits {n : Nat} (h : 0 < n) : (Nat.toDigits 10 n).head? ≠ some '0' := by
  induction n using Nat.strong_induction_on with
  | _ n ih =>
    by_cases hn : n < 10
    · rw [Nat.toDigits_of_lt_base hn]
      interval_cases n <;> decide
    · have hpos : 0 < n / 10 := by omega
      rw [Nat.toDigits_of_base_le (by decide) (Nat.le_of_not_lt hn),
        List.head?_append_of_ne_nil _ Nat.toDigits_ne_nil]
      exact ih (n / 10) (by omega) hpos

theorem decimal_of_lt_ten {b : UInt8} (h : 48 ≤ b.toNat ∧ b.toNat ≤ 57) :
    decimal (byteDigit b) = [b] := by
  have hdigit : byteDigit b < 10 := by rw [byteDigit]; omega
  have hchar : (Nat.digitChar (byteDigit b)).toNat = b.toNat := by
    rw [Nat.toNat_digitChar_of_lt_ten hdigit, byteDigit]
    omega
  rw [decimal, Nat.toDigits_of_lt_base hdigit, List.map_singleton]
  refine congrArg (fun x => [x]) (UInt8.toNat_inj.mp ?_)
  have hmod : (Nat.digitChar (byteDigit b)).toUInt8.toNat =
      (Nat.digitChar (byteDigit b)).toNat % 256 := rfl
  rw [hmod, hchar, Nat.mod_eq_of_lt b.toNat_lt]

/-- A text of digits without a leading zero is the notation of its number. -/
theorem decimal_numeralValue {l : List UInt8} (hne : l ≠ []) (hdigits : ∀ b ∈ l, 48 ≤ b.toNat ∧
    b.toNat ≤ 57)
    (hzero : 1 < l.length → l.head? ≠ some 48) : decimal (numeralValue byteDigit l) = l := by
  induction l using List.reverseRecOn with
  | nil => exact absurd rfl hne
  | append_singleton l b ih =>
    have hb := hdigits b (by simp)
    rw [numeralValue_concat]
    rcases List.eq_nil_or_concat l with rfl | ⟨l', c, hl⟩
    · simpa [numeralValue] using decimal_of_lt_ten hb
    · have hl0 : l ≠ [] := by simp [hl]
      have hhead : l.head? ≠ some 48 := by
        have hlong : 1 < (l ++ [b]).length := by simp [hl]
        have happend : (l ++ [b]).head? = l.head? := List.head?_append_of_ne_nil l hl0
        rw [← happend]
        exact hzero hlong
      have hdl : ∀ x ∈ l, 48 ≤ x.toNat ∧ x.toNat ≤ 57 := fun x hx => hdigits x (by simp [hx])
      have ih' := ih hl0 hdl fun _ => hhead
      have hpos : 0 < numeralValue byteDigit l := by
        rcases Nat.eq_zero_or_pos (numeralValue byteDigit l) with h0 | h0
        · rw [h0] at ih'
          exact absurd (by rw [← ih']; rfl) hhead
        · exact h0
      have hsplit := Nat.toDigits_append_toDigits (b := 10) (by decide) hpos
        (show byteDigit b < 10 by rw [byteDigit]; omega)
      have hdb := decimal_of_lt_ten hb
      rw [decimal] at ih' hdb ⊢
      rw [Nat.mul_comm, ← hsplit, List.map_append, ih', hdb]

end OcamlTemporal.Lib
