import Mathlib

/-!
# OcamlTemporal.Lib.Frames

**Length-prefixed frames**: texts written one after another into a byte string,
each with its length in front, and read back by position.

* `Takes x data position next`: the text `x` stands in `data` from one position to
  another. A reader is specified by the text it takes, so `takes_append` is all that
  a proof about two readers in sequence needs.
* `be32` and `ofBe32`: a 32-bit big-endian word, written modulo `2 ^ 32` and read
  back as a signed number. `ofBe32_eq_iff` says when the two agree.
-/

namespace OcamlTemporal.Lib

universe u

/-! ## Texts at a position -/

section Takes

variable {α : Type u} {x y data : List α} {position next : Nat}

/-- The text `x` stands in `data` from one position to another. -/
structure Takes (x data : List α) (position next : Nat) : Prop where
  stands : x <+: data.drop position
  within : position ≤ data.length
  next_eq : next = position + x.length

theorem takes_nil : Takes [] data position next ↔ position ≤ data.length ∧ next = position :=
  ⟨fun h => ⟨h.within, h.next_eq⟩, fun h => ⟨List.nil_prefix, h.1, h.2⟩⟩

theorem Takes.next_le (h : Takes x data position next) : next ≤ data.length := by
  obtain ⟨hstands, hwithin, rfl⟩ := h
  have hle := hstands.length_le
  rw [List.length_drop] at hle
  omega

theorem takes_append :
    Takes (x ++ y) data position next ↔
      ∃ mid, Takes x data position mid ∧ Takes y data mid next := by
  constructor
  · rintro ⟨⟨rest, hrest⟩, hwithin, rfl⟩
    rw [List.append_assoc] at hrest
    have hx : Takes x data position (position + x.length) := ⟨⟨_, hrest⟩, hwithin, rfl⟩
    refine ⟨_, hx, ⟨rest, ?_⟩, hx.next_le, ?_⟩
    · rw [← List.drop_drop, ← hrest, List.drop_left]
    · rw [List.length_append, Nat.add_assoc]
  · rintro ⟨mid, ⟨⟨rest, hrest⟩, hwithin, rfl⟩, ⟨rest', hrest'⟩, -, rfl⟩
    rw [← List.drop_drop, ← hrest, List.drop_left] at hrest'
    refine ⟨⟨rest', ?_⟩, hwithin, ?_⟩
    · rw [List.append_assoc, hrest', hrest]
    · rw [List.length_append, Nat.add_assoc]

/-- The text from the first position to the last one is all of the data. -/
theorem takes_all : Takes x data 0 data.length ↔ data = x := by
  constructor
  · rintro ⟨hstands, -, hlength⟩
    rw [Nat.zero_add] at hlength
    exact (hstands.eq_of_length hlength.symm).symm
  · rintro rfl
    exact ⟨List.prefix_rfl, Nat.zero_le _, (Nat.zero_add _).symm⟩

/-- The text of a given length at a position (`Bytes.sub`). -/
def slice (data : List α) (position size : Nat) : List α := (data.drop position).take size

theorem length_slice {size : Nat} (h : position + size ≤ data.length) :
    (slice data position size).length = size := by
  rw [slice, List.length_take, List.length_drop]
  omega

theorem takes_iff_slice {size : Nat} (h : position + size ≤ data.length) :
    Takes x data position (position + size) ↔ slice data position size = x := by
  constructor
  · rintro ⟨hstands, -, hsize⟩
    obtain rfl : size = x.length := Nat.add_left_cancel hsize
    exact (List.prefix_iff_eq_take.mp hstands).symm
  · rintro rfl
    exact ⟨List.take_prefix _ _, by omega, by rw [length_slice h]⟩

end Takes

/-! ## Words of 32 bits -/

/-- The big-endian word of a number, modulo `2 ^ 32`. -/
def be32 (n : Nat) : List UInt8 :=
  [UInt8.ofNat (n / 2 ^ 24), UInt8.ofNat (n / 2 ^ 16), UInt8.ofNat (n / 2 ^ 8), UInt8.ofNat n]

def word (a b c d : UInt8) : Nat :=
  a.toNat * 2 ^ 24 + b.toNat * 2 ^ 16 + c.toNat * 2 ^ 8 + d.toNat

def ofBe32 (a b c d : UInt8) : Int :=
  if word a b c d < 2 ^ 31 then word a b c d else word a b c d - 2 ^ 32

@[simp] theorem length_be32 (n : Nat) : (be32 n).length = 4 := rfl

/-- Four bytes are how exactly one number is written. -/
theorem eq_be32_iff {a b c d : UInt8} {n : Nat} (hn : n < 2 ^ 32) :
    [a, b, c, d] = be32 n ↔ word a b c d = n := by
  have ha := a.toNat_lt
  have hb := b.toNat_lt
  have hc := c.toNat_lt
  have hd := d.toNat_lt
  simp only [be32, word, List.cons.injEq, and_true, ← UInt8.toNat_inj, UInt8.toNat_ofNat']
  omega

theorem word_lt (a b c d : UInt8) : word a b c d < 2 ^ 32 := by
  have ha := a.toNat_lt
  have hb := b.toNat_lt
  have hc := c.toNat_lt
  have hd := d.toNat_lt
  rw [word]
  omega

/-- A word is read as a number exactly if it is how a number below `2 ^ 31` is
written; the words of larger numbers are read as negative ones. -/
theorem ofBe32_eq_iff {a b c d : UInt8} {n : Nat} :
    ofBe32 a b c d = n ↔ n < 2 ^ 31 ∧ [a, b, c, d] = be32 n := by
  have hlt := word_lt a b c d
  constructor
  · intro h
    unfold ofBe32 at h
    have hn : n < 2 ^ 31 ∧ word a b c d = n := by
      split at h <;> omega
    exact ⟨hn.1, (eq_be32_iff (by omega)).mpr hn.2⟩
  · rintro ⟨hn, h⟩
    have hword := (eq_be32_iff (by omega)).mp h
    rw [ofBe32, if_pos (by omega), hword]

end OcamlTemporal.Lib
