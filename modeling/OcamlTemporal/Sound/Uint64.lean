import Mathlib
import OcamlTemporal.Lib.Decimal
import OcamlTemporal.Lib.Signed64
import OcamlTemporal.Protocol.Codec
import OcamlTemporal.Runtime.Random

/-!
# OcamlTemporal.Sound.Uint64

Unsigned 64-bit numbers in decimal notation. Three functions of the source read them: the protocol's
check compares texts, `uint64_bits` carries between two limbs, and the seed parser lets the product
wrap around. **`uint64_decimals_ok`** says that they agree on `Lib.numeralValue`.
-/

namespace OcamlTemporal.Protocol.Codec

open Lib

variable {value : Bytes} {n : Nat}

/-! ## The check -/

theorem isDigit_iff {b : UInt8} : Json.isDigit b = true ↔ 48 ≤ b.toNat ∧ b.toNat ≤ 57 := by
  simp only [Json.isDigit, Bool.and_eq_true, decide_eq_true_eq, UInt8.le_iff_toNat_le]
  rfl

theorem byteDigit_lt {b : UInt8} (h : 48 ≤ b.toNat ∧ b.toNat ≤ 57) : byteDigit b < 10 := by
  rw [byteDigit]
  omega

theorem byteDigit_order {a b : UInt8} (ha : 48 ≤ a.toNat ∧ a.toNat ≤ 57)
    (hb : 48 ≤ b.toNat ∧ b.toNat ≤ 57) :
    (a < b ↔ byteDigit a < byteDigit b) ∧ (byteDigit a = byteDigit b → a = b) := by
  rw [byteDigit, byteDigit, UInt8.lt_iff_toNat_lt, ← UInt8.toNat_inj]
  omega

theorem digits_decimal (n : Nat) : ∀ b ∈ decimal n, 48 ≤ b.toNat ∧ b.toNat ≤ 57 := by
  intro b hb
  obtain ⟨c, hc, rfl⟩ := List.mem_map.mp hb
  have hdigit := toUInt8_toNat_of_isDigit (Nat.isDigit_of_mem_toDigits (by decide) (by decide) hc)
  omega

def maximum : Bytes := text "18446744073709551615"

theorem maximum_eq : maximum = decimal (2 ^ 64 - 1) := by decide +kernel

theorem canonicalUint64_iff :
    canonicalUint64 value = true ↔ value ≠ [] ∧ ¬ (1 < value.length ∧ value.head? = some 48) ∧
      (∀ b ∈ value, 48 ≤ b.toNat ∧ b.toNat ≤ 57) ∧ value.length ≤ 20 ∧
      ¬ (value.length = 20 ∧ maximum < value) := by
  have hlength : (text "18446744073709551615").length = 20 := by decide +kernel
  have hdigits : value.all Json.isDigit = true ↔ ∀ b ∈ value, 48 ≤ b.toNat ∧ b.toNat ≤ 57 := by
    simp only [List.all_eq_true, isDigit_iff]
  simp only [canonicalUint64, hlength, maximum, Bool.not_eq_true', Bool.or_eq_false_iff,
    Bool.and_eq_false_iff, Bool.not_eq_false', decide_eq_false_iff_not, hdigits,
    List.length_eq_zero_iff, not_and_or, Nat.not_lt, and_assoc, ne_eq]

theorem numeralValue_maximum : numeralValue byteDigit maximum = 2 ^ 64 - 1 := by
  rw [maximum_eq, numeralValue_decimal]

theorem length_maximum : maximum.length = 20 := by decide +kernel

/-- Twenty digits are compared with the largest number as texts. -/
theorem maximum_lt_iff (hdigits : ∀ b ∈ value, 48 ≤ b.toNat ∧ b.toNat ≤ 57)
    (hlength : value.length = 20) : maximum < value ↔ 2 ^ 64 ≤ numeralValue byteDigit value := by
  have hmax : ∀ b ∈ maximum, 48 ≤ b.toNat ∧ b.toNat ≤ 57 := maximum_eq ▸ digits_decimal _
  have hlt : ∀ b ∈ maximum, byteDigit b < 10 := fun b hb => byteDigit_lt (hmax b hb)
  rw [lt_iff_numeralValue_lt (length_maximum.trans hlength.symm) hlt
    (fun b hb => byteDigit_lt (hdigits b hb))
    fun a ha b hb => byteDigit_order (hmax a ha) (hdigits b hb), numeralValue_maximum]
  omega

/-- The check accepts the notations of the numbers below `2 ^ 64` and nothing else. -/
theorem canonicalUint64_iff_decimal :
    canonicalUint64 value = true ↔ ∃ n < 2 ^ 64, value = decimal n := by
  rw [canonicalUint64_iff]
  constructor
  · rintro ⟨hne, hzero, hdigits, hlength, hmax⟩
    refine ⟨numeralValue byteDigit value, ?_, ?_⟩
    · by_contra hlarge
      rcases Nat.lt_or_eq_of_le hlength with hlt | heq
      · have hsmall : numeralValue byteDigit value < 10 ^ value.length :=
          numeralValue_lt fun b hb => byteDigit_lt (hdigits b hb)
        have hpow : 10 ^ value.length ≤ 10 ^ 19 := Nat.pow_le_pow_right (by decide) (by omega)
        omega
      · exact hmax ⟨heq, (maximum_lt_iff hdigits heq).mpr (Nat.le_of_not_lt hlarge)⟩
    · exact (decimal_numeralValue hne hdigits fun hlong hhead => hzero ⟨hlong, hhead⟩).symm
  · rintro ⟨n, hn, rfl⟩
    have hdigits := digits_decimal n
    have hlength : (decimal n).length = (Nat.toDigits 10 n).length := List.length_map _
    refine ⟨?_, ?_, hdigits, ?_, ?_⟩
    · simp [decimal, Nat.toDigits_ne_nil]
    · rintro ⟨hlong, hhead⟩
      have hpos : 0 < n := by
        rcases Nat.eq_zero_or_pos n with rfl | hpos
        · exact absurd hlong (by decide)
        · exact hpos
      obtain ⟨c, hc, hbyte⟩ := Option.map_eq_some_iff.mp ((List.head?_map ..).symm.trans hhead)
      have hdigit := Nat.isDigit_of_mem_toDigits (by decide) (by decide) (List.mem_of_head? hc)
      have hzero : c = '0' := by
        rw [← ofNat_toUInt8_of_isDigit hdigit, hbyte]
        rfl
      exact head?_toDigits hpos (hzero ▸ hc)
    · rw [hlength, Nat.length_toDigits_le_iff (by decide) (by decide)]
      omega
    · rintro ⟨htwenty, hlt⟩
      rw [maximum_lt_iff hdigits htwenty, numeralValue_decimal] at hlt
      omega

/-! ## The limbs -/

/-- Every product and sum of a step is within a signed word. -/
structure Exact (high low digit : Int) : Prop where
  shifted : Representable (low * 10)
  product : Representable (low * 10 + digit)
  raised : Representable (high * 10)
  carried : Representable (high * 10 + (low * 10 + digit) / 2 ^ 32)

def Holds (limbs : Int64 × Int64) (n : Nat) : Prop :=
  limbs.1.toInt = n / 2 ^ 32 ∧ limbs.2.toInt = n % 2 ^ 32

theorem Holds.exact {limbs : Int64 × Int64} {digit : Nat} (h : Holds limbs n) (hn : n < 2 ^ 64)
    (hdigit : digit < 10) : Exact limbs.1.toInt limbs.2.toInt digit := by
  rw [h.1, h.2]
  exact ⟨⟨by omega, by omega⟩, ⟨by omega, by omega⟩, ⟨by omega, by omega⟩, ⟨by omega, by omega⟩⟩

theorem Holds.step {limbs : Int64 × Int64} {b : UInt8} (h : Holds limbs n) (hn : n < 2 ^ 64)
    (hb : 48 ≤ b.toNat ∧ b.toNat ≤ 57) : Holds (uint64Step limbs b) (n * 10 + byteDigit b) := by
  obtain ⟨hshifted, hproduct, hraised, hcarried⟩ := h.exact hn (byteDigit_lt hb)
  have hten : (10 : Int64).toInt = 10 := rfl
  have hbase : (4294967296 : Int64).toInt = 2 ^ 32 := rfl
  have hdigit : (Int64.ofInt (b.toNat - 48)).toInt = byteDigit b := by
    have hrange : Representable ((b.toNat : Int) - 48) := ⟨by omega, by omega⟩
    rw [hrange.toInt_ofInt, byteDigit]
    omega
  have hmul : (limbs.2 * 10).toInt = limbs.2.toInt * 10 := Representable.toInt_mul hshifted
  have hadd : (limbs.2 * 10 + Int64.ofInt (b.toNat - 48)).toInt =
      limbs.2.toInt * 10 + byteDigit b := by
    rw [← hdigit, ← hmul] at hproduct ⊢
    exact Representable.toInt_add hproduct
  have hpos : 0 ≤ (limbs.2 * 10 + Int64.ofInt (b.toNat - 48)).toInt := by
    rw [hadd, h.2]
    omega
  have hdiv : ((limbs.2 * 10 + Int64.ofInt (b.toNat - 48)) / 4294967296).toInt =
      (limbs.2.toInt * 10 + byteDigit b) / 2 ^ 32 := by
    rw [toInt_div_of_nonneg hpos (by rw [hbase]; decide), hadd, hbase]
  have hhigh : (limbs.1 * 10).toInt = limbs.1.toInt * 10 := Representable.toInt_mul hraised
  refine ⟨?_, ?_⟩
  · rw [← hhigh, ← hdiv] at hcarried
    refine (Representable.toInt_add hcarried).trans ?_
    rw [hhigh, hdiv, h.1, h.2]
    push_cast
    omega
  · refine (toInt_mod_of_nonneg hpos).trans ?_
    rw [hadd, hbase, h.2]
    push_cast
    omega

theorem holds_limbs (hdigits : ∀ b ∈ value, 48 ≤ b.toNat ∧ b.toNat ≤ 57)
    (hvalue : numeralValue byteDigit value < 2 ^ 64) :
    Holds (value.foldl uint64Step (0, 0)) (numeralValue byteDigit value) := by
  induction value using List.reverseRecOn with
  | nil => exact ⟨rfl, rfl⟩
  | append_singleton value b ih =>
    rw [numeralValue_concat] at hvalue
    have hbefore := ih (fun c hc => hdigits c (by simp [hc])) (by omega)
    rw [List.foldl_append, numeralValue_concat]
    exact hbefore.step (by omega) (hdigits b (by simp))

theorem toNat_toBitVec {a : Int64} {m : Nat} (h : a.toInt = m) : a.toBitVec.toNat = m := by
  have hpos : 0 ≤ a.toInt := by omega
  have hlt := a.toBitVec.isLt
  rw [← Int64.toInt_toBitVec, BitVec.toInt_eq_toNat_cond] at h
  split_ifs at h with hhalf
  · exact_mod_cast h
  · omega

theorem Holds.join {limbs : Int64 × Int64} (h : Holds limbs n) (hn : n < 2 ^ 64) :
    ¬ limbs.1 > 0xffffffff ∧
      limbs.1 <<< 32 ||| (limbs.2 &&& 0xffffffff) = Int64.ofBitVec (BitVec.ofNat 64 n) := by
  have hhigh : limbs.1.toBitVec.toNat = n / 2 ^ 32 := toNat_toBitVec h.1
  have hlow : limbs.2.toBitVec.toNat = n % 2 ^ 32 := toNat_toBitVec h.2
  constructor
  · have hmask : (0xffffffff : Int64).toInt = 2 ^ 32 - 1 := rfl
    rw [gt_iff_lt, Int64.lt_iff_toInt_lt, hmask, h.1]
    omega
  · refine Int64.toBitVec_inj.mp (BitVec.eq_of_toNat_eq ?_)
    have hshift : (limbs.1 <<< 32).toBitVec = limbs.1.toBitVec <<< 32 := rfl
    have hmask : (0xffffffff : Int64).toBitVec.toNat = 2 ^ 32 - 1 := rfl
    rw [Int64.toBitVec_or, Int64.toBitVec_and, hshift, BitVec.toNat_or, BitVec.toNat_and, hmask,
      BitVec.toNat_shiftLeft, hhigh, hlow, Nat.and_two_pow_sub_one_eq_mod, Nat.mod_mod]
    have hfits : (n / 2 ^ 32) <<< 32 % 2 ^ 64 = (n / 2 ^ 32) <<< 32 := by
      rw [Nat.shiftLeft_eq]
      omega
    rw [hfits, ← Nat.shiftLeft_add_eq_or_of_lt (Nat.mod_lt _ (by decide)), Nat.shiftLeft_eq]
    have hword : (Int64.ofBitVec (BitVec.ofNat 64 n)).toBitVec.toNat = n % 2 ^ 64 := rfl
    omega

/-! ## The seed -/

theorem foldl_word (l : List Char) :
    l.foldl (fun (state : BitVec 64) digit =>
        state * 10 + BitVec.ofNat 64 (digit.toNat - '0'.toNat)) 0 =
      BitVec.ofNat 64 (numeralValue charDigit l) := by
  induction l using List.reverseRecOn with
  | nil => rfl
  | append_singleton l c ih =>
    rw [List.foldl_append, ih, numeralValue_concat, BitVec.ofNat_add, BitVec.ofNat_mul]
    rfl

theorem charDigit_order {a b : Char} (ha : a.isDigit = true) (hb : b.isDigit = true) :
    (a < b ↔ charDigit a < charDigit b) ∧ (charDigit a = charDigit b → a = b) := by
  have hda := toUInt8_toNat_of_isDigit ha
  have hdb := toUInt8_toNat_of_isDigit hb
  have hzero : '0'.toNat = 48 := rfl
  have hlt : a < b ↔ a.toNat < b.toNat := Iff.rfl
  rw [charDigit, charDigit, hzero, hlt, ← Char.toNat_inj]
  omega

theorem charDigit_lt {c : Char} (h : c.isDigit = true) : charDigit c < 10 := by
  have hd := toUInt8_toNat_of_isDigit h
  have hzero : '0'.toNat = 48 := rfl
  rw [charDigit, hzero]
  omega

/-- The seed parser reads the notation of a number as its word, zero as one. -/
theorem seedOfDecimal_repr (hn : n < 2 ^ 64) :
    Random.seedOfDecimal n.repr = some (if n = 0 then 1 else BitVec.ofNat 64 n) := by
  have hlist : n.repr.toList = Nat.toDigits 10 n := String.toList_ofList
  have hdigit : ∀ m, ∀ c ∈ Nat.toDigits 10 m, c.isDigit = true := fun m c hc =>
    Nat.isDigit_of_mem_toDigits (by decide) (by decide) hc
  have hmax : Random.maximumSeed.toList = Nat.toDigits 10 (2 ^ 64 - 1) := by decide +kernel
  have hmaxLength : Random.maximumSeed.toList.length = 20 := by decide +kernel
  have hword : (BitVec.ofNat 64 n = 0) ↔ n = 0 := by
    rw [← BitVec.toNat_inj, BitVec.toNat_ofNat, Nat.mod_eq_of_lt hn]
    rfl
  rw [Random.seedOfDecimal]
  simp only [hlist, foldl_word, numeralValue_toDigits, hword]
  refine if_neg ?_
  rintro (h | ⟨hlong, hhead⟩ | h | h | ⟨hlength, hlt⟩)
  · exact Nat.toDigits_ne_nil (List.length_eq_zero_iff.mp h)
  · have hpos : 0 < n := by
      rcases Nat.eq_zero_or_pos n with rfl | hpos
      · exact absurd hlong (by decide)
      · exact hpos
    exact head?_toDigits hpos hhead
  · exact h (List.all_eq_true.mpr (hdigit n))
  · rw [hmaxLength, Nat.lt_iff_le_and_not_ge] at h
    exact h.2 ((Nat.length_toDigits_le_iff (by decide) (by decide)).mpr (by omega))
  · rw [String.lt_iff, hlist, hmax, lt_iff_numeralValue_lt (hmax ▸ hlength.symm)
      (fun c hc => charDigit_lt (hdigit _ c hc)) (fun c hc => charDigit_lt (hdigit _ c hc))
      fun a ha b hb => charDigit_order (hdigit _ a ha) (hdigit _ b hb), numeralValue_toDigits,
      numeralValue_toDigits] at hlt
    omega

/-- The runtime's text of a number has the bytes of its notation. -/
theorem text_repr (n : Nat) : text n.repr = decimal n := by
  have hbytes : text n.repr = (Nat.toDigits 10 n).flatMap String.utf8EncodeChar := by
    simp [text, Nat.repr, String.toUTF8, List.utf8Encode]
  rw [hbytes, decimal, List.map_eq_flatMap]
  refine List.flatMap_congr fun c hc => ?_
  have hdigit := toUInt8_toNat_of_isDigit (Nat.isDigit_of_mem_toDigits (by decide) (by decide) hc)
  have hascii : c.val.toNat ≤ 127 := by
    have hval : c.val.toNat = c.toNat := rfl
    omega
  rw [String.utf8EncodeChar, if_pos hascii]
  rfl

/-! ## Agreement -/

theorem uint64Decimal_str (path : Bytes) (hvalue : canonicalUint64 value = true) :
    uint64Decimal path (.str value) = .ok value := by
  have hlength : value.length ≤ 65536 := by
    have hshort := (canonicalUint64_iff.mp hvalue).2.2.2.1
    omega
  simp [uint64Decimal, string, hlength, hvalue, pure, Except.pure, bind, Except.bind]

theorem uint64Decimal_error (path : Bytes) (hvalue : ¬ canonicalUint64 value = true) :
    ∃ e, uint64Decimal path (.str value) = .error e := by
  by_cases hlength : value.length ≤ 65536
  · exact ⟨invalid path "value is not canonical unsigned 64-bit decimal", by
      simp [uint64Decimal, string, hlength, hvalue, bind, Except.bind, throw, throwThe,
        MonadExceptOf.throw]⟩
  · exact ⟨invalid path "decoded JSON string limit exceeded", by
      simp [uint64Decimal, string, hlength, bind, Except.bind]⟩

/-- **Unsigned 64-bit decimals.** The protocol accepts the canonical notations of the numbers below
`2 ^ 64` and rejects every other text, so that one of a larger number is rejected too. On what is
accepted, `uint64_bits` returns the word of the number, and no operation on its limbs overflows; the
seed parser returns the same word, one for zero. -/
theorem uint64_decimals_ok (path : Bytes) (value : Bytes) :
    (uint64Decimal path (.str value) = .ok value ↔ ∃ n < 2 ^ 64, value = decimal n) ∧
      ((∀ n < 2 ^ 64, value ≠ decimal n) →
        ∃ e, uint64Decimal path (.str value) = .error e ∧ uint64Bits path (.str value) = .error e) ∧
      ∀ n < 2 ^ 64, value = decimal n →
        uint64Bits path (.str value) = .ok (Int64.ofBitVec (BitVec.ofNat 64 n)) ∧
        (∀ done b rest, value = done ++ b :: rest →
          Exact (done.foldl uint64Step (0, 0)).1.toInt (done.foldl uint64Step (0, 0)).2.toInt
            (byteDigit b)) ∧
        value = text n.repr ∧
        Random.seedOfDecimal n.repr = some (if n = 0 then 1 else BitVec.ofNat 64 n) := by
  refine ⟨?_, fun hother => ?_, ?_⟩
  · rw [← canonicalUint64_iff_decimal]
    refine ⟨fun h => ?_, uint64Decimal_str path⟩
    by_contra hvalue
    obtain ⟨e, he⟩ := uint64Decimal_error path hvalue
    exact nomatch he.symm.trans h
  · have hvalue : ¬ canonicalUint64 value = true := fun hvalue => by
      obtain ⟨n, hn, heq⟩ := canonicalUint64_iff_decimal.mp hvalue
      exact hother n hn heq
    obtain ⟨e, he⟩ := uint64Decimal_error path hvalue
    exact ⟨e, he, by simp [uint64Bits, he, bind, Except.bind]⟩
  · rintro n hn rfl
    have hvalue : numeralValue byteDigit (decimal n) < 2 ^ 64 := by rwa [numeralValue_decimal]
    have hlimbs := holds_limbs (digits_decimal n) hvalue
    rw [numeralValue_decimal] at hlimbs
    obtain ⟨hrange, hword⟩ := hlimbs.join hn
    refine ⟨?_, fun done b rest hsplit => ?_, (text_repr n).symm, seedOfDecimal_repr hn⟩
    · have haccepted := uint64Decimal_str path (canonicalUint64_iff_decimal.mpr ⟨n, hn, rfl⟩)
      simp only [uint64Bits, haccepted, bind, Except.bind, if_neg hrange, hword]
      rfl
    · -- what was read so far is a smaller number
      have hdigits : ∀ c ∈ done ++ b :: rest, 48 ≤ c.toNat ∧ c.toNat ≤ 57 :=
        hsplit ▸ digits_decimal n
      have hsmall : numeralValue byteDigit done < 2 ^ 64 := by
        rw [hsplit, numeralValue_append] at hvalue
        have hpow : 1 ≤ 10 ^ (b :: rest).length := Nat.one_le_pow _ _ (by decide)
        nlinarith
      have hdone := holds_limbs (fun c hc => hdigits c (by simp [hc])) hsmall
      exact hdone.exact hsmall (byteDigit_lt (hdigits b (by simp)))

example : uint64Bits [] (.str (text "18446744073709551615")) = .ok (-1) := by decide +kernel

end OcamlTemporal.Protocol.Codec
