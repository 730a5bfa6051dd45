import Mathlib.Data.List.Forall2
import Mathlib.Tactic.SplitIfs
import OcamlTemporal.Lib.Blocks

/-!
# OcamlTemporal.Lib.Utf8

Decoding one character of UTF-8 from the front of a byte string, as the Unicode
standard tables it: the first byte says how many bytes follow and between which
bounds each of them lies. A malformed sequence is consumed up to the byte that does
not fit, and at least one byte is consumed.

* `Character piece code`: the bytes `piece` are one character wherever they stand.
* `decode_some`: what is decoded as a character is one.
* `character_encodeChar`: what Lean encodes a `Char` as is one, the character itself.
* `synchronizing`: characters are blocks of at most four bytes, and a byte tells
  whether it starts one.
-/

namespace OcamlTemporal.Lib.Utf8

/-- A decoded character, or none for a malformed sequence, and the bytes consumed. -/
structure Decoded where
  uchar : Option Nat
  length : Nat
  deriving DecidableEq, Repr

def anyNext : UInt8 × UInt8 := (0x80, 0xBF)

/-- The bounds of the second byte: stricter from below after the least first byte
(there the form would be overlong) and from above after one other. -/
def secondNext (least low other high b : UInt8) : UInt8 × UInt8 :=
  if b = least then (low, 0xBF) else if b = other then (0x80, high) else anyNext

/-- The second byte of three excludes overlong forms and surrogates. -/
def secondOfThree : UInt8 → UInt8 × UInt8 := secondNext 0xE0 0xA0 0xED 0x9F

/-- The second byte of four excludes overlong forms and what is above `U+10FFFF`. -/
def secondOfFour : UInt8 → UInt8 × UInt8 := secondNext 0xF0 0x90 0xF4 0x8F

/-- The first byte's share of the character and the bounds of the bytes after it. -/
def lead (b : UInt8) : Option (Nat × List (UInt8 × UInt8)) :=
  if b ≤ 0x7F then some (b.toNat, [])
  else if b < 0xC2 then none
  else if b ≤ 0xDF then some (b.toNat - 0xC0, [anyNext])
  else if b ≤ 0xEF then some (b.toNat - 0xE0, [secondOfThree b, anyNext])
  else if b ≤ 0xF4 then some (b.toNat - 0xF0, [secondOfFour b, anyNext, anyNext])
  else none

/-- Reads the bytes after the first one; `length` bytes are consumed so far. -/
def follow (code length : Nat) : List (UInt8 × UInt8) → List UInt8 → Decoded
  | [], _ => ⟨some code, length⟩
  | _ :: _, [] => ⟨none, length⟩
  | (low, high) :: bounds, b :: rest =>
    if low ≤ b ∧ b ≤ high then follow (code * 64 + (b.toNat - 0x80)) (length + 1) bounds rest
    else ⟨none, length⟩

/-- The first character of a byte string. -/
def decode : List UInt8 → Decoded
  | [] => ⟨none, 0⟩
  | b :: rest =>
    match lead b with
    | none => ⟨none, 1⟩
    | some (code, bounds) => follow code 1 bounds rest

theorem le_length_follow (code length : Nat) (bounds : List (UInt8 × UInt8)) (rest : List UInt8) :
    length ≤ (follow code length bounds rest).length := by
  induction bounds generalizing code length rest with
  | nil => exact Nat.le_refl _
  | cons bound bounds ih =>
    cases rest with
    | nil => exact Nat.le_refl _
    | cons b rest =>
      unfold follow
      split_ifs
      · exact Nat.le_of_succ_le (ih _ _ rest)
      · exact Nat.le_refl _

theorem length_decode_pos (b : UInt8) (rest : List UInt8) : 0 < (decode (b :: rest)).length := by
  rw [decode]
  cases lead b with
  | none => exact Nat.one_pos
  | some led => exact le_length_follow led.1 1 led.2 rest

/-- The bytes are one character wherever they stand: a single byte below `0x80`, or
several bytes from `0x80` on for a character from `U+0080` on. -/
structure Character (piece : List UInt8) (code : Nat) : Prop where
  decode_eq : ∀ rest, decode (piece ++ rest) = ⟨some code, piece.length⟩
  ascii_or_wide : (∃ b : UInt8, b ≤ 0x7F ∧ piece = [b] ∧ code = b.toNat) ∨
    0x80 ≤ code ∧ ∀ b ∈ piece, 0x80 ≤ b.toNat

theorem Character.ne_nil {piece : List UInt8} {code : Nat} (h : Character piece code) :
    piece ≠ [] := by
  rintro rfl
  have hdecode := h.decode_eq []
  cases hdecode

theorem character_ascii {b : UInt8} (h : b ≤ 0x7F) : Character [b] b.toNat := by
  refine ⟨fun rest => ?_, .inl ⟨b, h, rfl, rfl⟩⟩
  rw [List.singleton_append, decode, lead, if_pos h]
  rfl

/-- The bytes of a character follow one another within their bounds. -/
abbrev Within (tail : List UInt8) (bounds : List (UInt8 × UInt8)) : Prop :=
  List.Forall₂ (fun b bound => bound.1 ≤ b ∧ b ≤ bound.2) tail bounds

/-- The character that following bytes make of the first byte's share. -/
def extend (code : Nat) (tail : List UInt8) : Nat :=
  tail.foldl (fun code b => code * 64 + (b.toNat - 0x80)) code

theorem follow_within {tail : List UInt8} {bounds : List (UInt8 × UInt8)}
    (h : Within tail bounds) (code length : Nat) (rest : List UInt8) :
    follow code length bounds (tail ++ rest) = ⟨some (extend code tail), length + tail.length⟩ := by
  induction h generalizing code length with
  | nil => rfl
  | cons hb _ ih =>
    rw [List.cons_append, follow, if_pos hb, ih, extend, extend, List.foldl_cons, List.length_cons,
      Nat.add_assoc, Nat.add_comm 1]

/-- A successful `follow` took as many bytes as there are bounds, each within its own. -/
theorem follow_some {code length code' : Nat} {bounds : List (UInt8 × UInt8)} {rest : List UInt8}
    (h : (follow code length bounds rest).uchar = some code') :
    ∃ tail rest', rest = tail ++ rest' ∧ Within tail bounds := by
  induction bounds generalizing code length rest with
  | nil => exact ⟨[], rest, rfl, .nil⟩
  | cons bound bounds ih =>
    cases rest with
    | nil => cases h
    | cons b rest =>
      unfold follow at h
      split_ifs at h with hb
      obtain ⟨tail, rest', rfl, hbounds⟩ := ih h
      exact ⟨b :: tail, rest', rfl, .cons hb hbounds⟩

/-- The first byte of several, by how many follow. -/
theorem lead_cases {b : UInt8} {code : Nat} {bounds : List (UInt8 × UInt8)}
    (h : lead b = some (code, bounds)) (hb : ¬ b ≤ 0x7F) :
    (0xC2 ≤ b.toNat ∧ code = b.toNat - 0xC0 ∧ bounds = [anyNext]) ∨
    (0xE0 ≤ b.toNat ∧ code = b.toNat - 0xE0 ∧ bounds = [secondOfThree b, anyNext]) ∨
    (0xF0 ≤ b.toNat ∧ code = b.toNat - 0xF0 ∧ bounds = [secondOfFour b, anyNext, anyNext]) := by
  unfold lead at h
  rw [if_neg hb] at h
  split_ifs at h with h₁ h₂ h₃ h₄
  · obtain ⟨rfl, rfl⟩ := Prod.mk.inj (Option.some.inj h)
    exact .inl ⟨UInt8.le_iff_toNat_le.mp (UInt8.not_lt.mp h₁), rfl, rfl⟩
  · obtain ⟨rfl, rfl⟩ := Prod.mk.inj (Option.some.inj h)
    exact .inr (.inl ⟨UInt8.lt_iff_toNat_lt.mp (UInt8.not_le.mp h₂), rfl, rfl⟩)
  · obtain ⟨rfl, rfl⟩ := Prod.mk.inj (Option.some.inj h)
    exact .inr (.inr ⟨UInt8.lt_iff_toNat_lt.mp (UInt8.not_le.mp h₃), rfl, rfl⟩)

theorem anyNext_le {c : UInt8} (h : anyNext.1 ≤ c) : 0x80 ≤ c.toNat :=
  UInt8.le_iff_toNat_le.mp h

theorem secondNext_le {least low other high b c : UInt8} (hlow : 0x80 ≤ low.toNat)
    (hb : least.toNat ≤ b.toNat) (h : (secondNext least low other high b).1 ≤ c) :
    0x80 ≤ c.toNat ∧ (least.toNat < b.toNat ∨ low.toNat ≤ c.toNat) := by
  unfold secondNext at h
  by_cases hleast : b = least
  · rw [if_pos hleast] at h
    have hc : low.toNat ≤ c.toNat := UInt8.le_iff_toNat_le.mp h
    exact ⟨Nat.le_trans hlow hc, .inr hc⟩
  · rw [if_neg hleast] at h
    have hc : 0x80 ≤ c.toNat := by
      split_ifs at h <;> exact anyNext_le h
    rw [← UInt8.toNat_inj] at hleast
    exact ⟨hc, .inl (Nat.lt_of_le_of_ne hb (Ne.symm hleast))⟩

/-- A character of several bytes is not in the ASCII range, and none of its bytes is. -/
theorem wide_of_lead {b : UInt8} {code : Nat} {bounds : List (UInt8 × UInt8)} {tail : List UInt8}
    (h : lead b = some (code, bounds)) (hb : ¬ b ≤ 0x7F) (htail : Within tail bounds) :
    0x80 ≤ extend code tail ∧ ∀ c ∈ b :: tail, 0x80 ≤ c.toNat := by
  obtain ⟨hb, hcode, rfl⟩ | ⟨hb, hcode, rfl⟩ | ⟨hb, hcode, rfl⟩ := lead_cases h hb
  · match tail, htail with
    | [c], .cons hc .nil =>
      have hc := anyNext_le hc.1
      simp only [extend, List.foldl_cons, List.foldl_nil, List.forall_mem_cons]
      exact ⟨by omega, by omega, hc, nofun⟩
  · match tail, htail with
    | [c, d], .cons hc (.cons hd .nil) =>
      obtain ⟨hc, hmin⟩ := @secondNext_le 0xE0 0xA0 0xED 0x9F b c (by decide) hb hc.1
      have hd := anyNext_le hd.1
      simp only [extend, List.foldl_cons, List.foldl_nil, List.forall_mem_cons]
      change 0xE0 < b.toNat ∨ 0xA0 ≤ c.toNat at hmin
      exact ⟨by omega, by omega, hc, hd, nofun⟩
  · match tail, htail with
    | [c, d, e], .cons hc (.cons hd (.cons he .nil)) =>
      obtain ⟨hc, hmin⟩ := @secondNext_le 0xF0 0x90 0xF4 0x8F b c (by decide) hb hc.1
      have hd := anyNext_le hd.1
      have he := anyNext_le he.1
      simp only [extend, List.foldl_cons, List.foldl_nil, List.forall_mem_cons]
      change 0xF0 < b.toNat ∨ 0x90 ≤ c.toNat at hmin
      exact ⟨by omega, by omega, hc, hd, he, nofun⟩

/-- A first byte with bytes within the bounds that it sets is one character. -/
theorem character_of_within {b : UInt8} {code : Nat} {bounds : List (UInt8 × UInt8)}
    {tail : List UInt8} (hlead : lead b = some (code, bounds)) (hwithin : Within tail bounds) :
    Character (b :: tail) (extend code tail) := by
  refine ⟨fun rest => ?_, ?_⟩
  · rw [List.cons_append, decode, hlead, List.length_cons, Nat.add_comm]
    exact follow_within hwithin code 1 rest
  · by_cases hb : b ≤ 0x7F
    · rw [lead, if_pos hb] at hlead
      obtain ⟨rfl, rfl⟩ := Prod.mk.inj (Option.some.inj hlead)
      cases hwithin
      exact .inl ⟨b, hb, rfl, rfl⟩
    · exact .inr (wide_of_lead hlead hb hwithin)

/-- What is decoded as a character is a first byte with bytes within its bounds. -/
theorem within_of_decode {bytes : List UInt8} {code : Nat} (h : (decode bytes).uchar = some code) :
    ∃ b tail rest first bounds, bytes = b :: tail ++ rest ∧ lead b = some (first, bounds) ∧
      Within tail bounds := by
  match bytes with
  | [] => cases h
  | b :: rest =>
    rw [decode] at h
    cases hlead : lead b with
    | none =>
      rw [hlead] at h
      cases h
    | some led =>
      rw [hlead] at h
      obtain ⟨tail, rest', rfl, hwithin⟩ := follow_some h
      exact ⟨b, tail, rest', led.1, led.2, rfl, hlead, hwithin⟩

theorem decode_some {bytes : List UInt8} {code : Nat} (h : (decode bytes).uchar = some code) :
    ∃ piece rest, bytes = piece ++ rest ∧ piece.length = (decode bytes).length ∧
      Character piece code := by
  obtain ⟨b, tail, rest, first, bounds, rfl, hlead, hwithin⟩ := within_of_decode h
  have hpiece := character_of_within hlead hwithin
  rw [hpiece.decode_eq rest] at h ⊢
  obtain rfl := Option.some.inj h
  exact ⟨_, rest, rfl, rfl, hpiece⟩

/-! ## Characters as blocks -/

def IsCharacter (piece : List UInt8) : Prop := ∃ code, Character piece code

/-- A byte that can only stand after the first one of a character. -/
def Continues (b : UInt8) : Prop := anyNext.1 ≤ b ∧ b ≤ anyNext.2

theorem continues_iff {b : UInt8} : Continues b ↔ 0x80 ≤ b.toNat ∧ b.toNat ≤ 0xBF := by
  rw [Continues, UInt8.le_iff_toNat_le, UInt8.le_iff_toNat_le]
  rfl

theorem continues_of_secondNext {least low other high b c : UInt8} (hlow : 0x80 ≤ low)
    (hhigh : high ≤ 0xBF) (h : (secondNext least low other high b).1 ≤ c ∧
      c ≤ (secondNext least low other high b).2) : Continues c := by
  unfold secondNext at h
  split_ifs at h
  · exact ⟨UInt8.le_trans hlow h.1, h.2⟩
  · exact ⟨h.1, UInt8.le_trans h.2 hhigh⟩
  · exact h

/-- The first byte of a character does not continue one; at most three bytes that do
follow it. -/
theorem lead_spec {b : UInt8} {code : Nat} {bounds : List (UInt8 × UInt8)}
    (h : lead b = some (code, bounds)) :
    ¬ Continues b ∧ bounds.length < 4 ∧
      ∀ bound ∈ bounds, ∀ c, bound.1 ≤ c ∧ c ≤ bound.2 → Continues c := by
  by_cases hb : b ≤ 0x7F
  · rw [lead, if_pos hb] at h
    obtain ⟨rfl, rfl⟩ := Prod.mk.inj (Option.some.inj h)
    have hb : b.toNat ≤ 0x7F := UInt8.le_iff_toNat_le.mp hb
    refine ⟨?_, by decide, by simp⟩
    rw [continues_iff]
    omega
  · have hwide : ∀ {least : Nat}, 0xC2 ≤ least → least ≤ b.toNat → ¬ Continues b := by
      intro least hleast hle
      rw [continues_iff]
      omega
    obtain ⟨hle, -, rfl⟩ | ⟨hle, -, rfl⟩ | ⟨hle, -, rfl⟩ := lead_cases h hb
    · refine ⟨hwide (by decide) hle, by simp, ?_⟩
      simp only [List.forall_mem_singleton]
      exact fun c hc => hc
    · refine ⟨hwide (by decide) hle, by simp, ?_⟩
      simp only [List.forall_mem_cons]
      exact ⟨fun c hc => continues_of_secondNext (by decide) (by decide) hc,
        fun c hc => hc, by simp⟩
    · refine ⟨hwide (by decide) hle, by simp, ?_⟩
      simp only [List.forall_mem_cons]
      exact ⟨fun c hc => continues_of_secondNext (by decide) (by decide) hc, fun c hc => hc,
        fun c hc => hc, by simp⟩

/-- A character is its first byte and bytes within the bounds that this one sets. -/
theorem Character.within {piece : List UInt8} {code : Nat} (h : Character piece code) :
    ∃ b tail first bounds, piece = b :: tail ∧ lead b = some (first, bounds) ∧
      Within tail bounds := by
  have hdecode := h.decode_eq []
  rw [List.append_nil] at hdecode
  obtain ⟨b, tail, rest, first, bounds, rfl, hlead, hwithin⟩ :=
    within_of_decode (congrArg Decoded.uchar hdecode)
  -- The whole of the piece was read, so nothing is left of it.
  rw [(character_of_within hlead hwithin).decode_eq] at hdecode
  have hlength := congrArg Decoded.length hdecode
  simp only [List.length_append] at hlength
  obtain rfl : rest = [] := List.eq_nil_of_length_eq_zero (by omega)
  exact ⟨b, tail, first, bounds, List.append_nil _, hlead, hwithin⟩

/-- A byte tells whether it starts a character, and a character has at most four. -/
theorem synchronizing : Blocks.Synchronizing IsCharacter Continues 4 where
  shape := by
    rintro piece ⟨code, hpiece⟩
    obtain ⟨b, tail, first, bounds, rfl, hlead, hwithin⟩ := hpiece.within
    obtain ⟨hfirst, hfew, hbounds⟩ := lead_spec hlead
    refine ⟨b, tail, rfl, hfirst, fun c hc => ?_, hwithin.length_eq ▸ hfew⟩
    obtain ⟨i, hi, rfl⟩ := List.getElem_of_mem hc
    have hi' : i < bounds.length := hwithin.length_eq ▸ hi
    exact hbounds _ (List.getElem_mem hi') _ (hwithin.get hi hi')

/-! ## The characters of Lean

`String.utf8EncodeChar` splits the scalar value of a character into groups of six bits.
What it gives for a first byte is a `lead`, and the groups behind it are within its bounds,
because a `Char` is no surrogate and at most `U+10FFFF`.
-/

section EncodeChar

variable {b c : UInt8}

theorem lead_two (h : 0xC2 ≤ b.toNat ∧ b.toNat ≤ 0xDF) :
    lead b = some (b.toNat - 0xC0, [anyNext]) := by
  simp only [lead, UInt8.le_iff_toNat_le, UInt8.lt_iff_toNat_lt, UInt8.reduceToNat]
  rw [if_neg (by omega), if_neg (by omega), if_pos (by omega)]

theorem lead_three (h : 0xE0 ≤ b.toNat ∧ b.toNat ≤ 0xEF) :
    lead b = some (b.toNat - 0xE0, [secondOfThree b, anyNext]) := by
  simp only [lead, UInt8.le_iff_toNat_le, UInt8.lt_iff_toNat_lt, UInt8.reduceToNat]
  rw [if_neg (by omega), if_neg (by omega), if_neg (by omega), if_pos (by omega)]

theorem lead_four (h : 0xF0 ≤ b.toNat ∧ b.toNat ≤ 0xF4) :
    lead b = some (b.toNat - 0xF0, [secondOfFour b, anyNext, anyNext]) := by
  simp only [lead, UInt8.le_iff_toNat_le, UInt8.lt_iff_toNat_lt, UInt8.reduceToNat]
  rw [if_neg (by omega), if_neg (by omega), if_neg (by omega), if_neg (by omega),
    if_pos (by omega)]

theorem secondNext_within {least low other high : UInt8} (hc : Continues c)
    (hlow : b.toNat = least.toNat → low.toNat ≤ c.toNat)
    (hhigh : b.toNat = other.toNat → c.toNat ≤ high.toNat) :
    (secondNext least low other high b).1 ≤ c ∧ c ≤ (secondNext least low other high b).2 := by
  unfold secondNext
  split_ifs with hleast hother
  · exact ⟨UInt8.le_iff_toNat_le.mpr (hlow (congrArg UInt8.toNat hleast)), hc.2⟩
  · exact ⟨hc.1, UInt8.le_iff_toNat_le.mpr (hhigh (congrArg UInt8.toNat hother))⟩
  · exact hc

theorem toNat_ofNat {n : Nat} (h : n < 256) : (UInt8.ofNat n).toNat = n := by
  rw [UInt8.toNat_ofNat', Nat.mod_eq_of_lt h]

theorem continues_ofNat (n : Nat) : Continues (UInt8.ofNat (n % 64 + 128)) := by
  rw [continues_iff, toNat_ofNat (by omega)]
  omega

theorem character_encodeChar (c : Char) : Character (String.utf8EncodeChar c) c.toNat := by
  have hscalar : c.val.toNat < 0xD800 ∨ 0xDFFF < c.val.toNat ∧ c.val.toNat < 0x110000 := c.valid
  have hof : ∀ {piece : List UInt8} {code : Nat}, Character piece code → code = c.val.toNat →
      Character piece c.toNat := by
    rintro piece _ h rfl
    exact h
  unfold String.utf8EncodeChar
  generalize c.val.toNat = v at hscalar hof
  dsimp only
  split_ifs with h₁ h₂ h₃
  · have hb : (UInt8.ofNat v).toNat = v := toNat_ofNat (by omega)
    exact hof (character_ascii (UInt8.le_iff_toNat_le.mpr (hb.trans_le h₁))) hb
  · have hb := @toNat_ofNat (v / 64 % 32 + 192) (by omega)
    have hc := @toNat_ofNat (v % 64 + 128) (by omega)
    refine hof (character_of_within (lead_two (by omega)) (.cons (continues_ofNat _) .nil)) ?_
    simp only [extend, List.foldl_cons, List.foldl_nil, hb, hc]
    omega
  · have hb := @toNat_ofNat (v / 4096 % 16 + 224) (by omega)
    have hc := @toNat_ofNat (v / 64 % 64 + 128) (by omega)
    have hd := @toNat_ofNat (v % 64 + 128) (by omega)
    have hsecond := @secondNext_within (.ofNat (v / 4096 % 16 + 224)) _ 0xE0 0xA0 0xED 0x9F
      (continues_ofNat (v / 64)) (by rw [hb, hc]; simp only [UInt8.reduceToNat]; omega)
      (by rw [hb, hc]; simp only [UInt8.reduceToNat]; omega)
    refine hof (character_of_within (lead_three (by omega))
      (.cons hsecond (.cons (continues_ofNat _) .nil))) ?_
    simp only [extend, List.foldl_cons, List.foldl_nil, hb, hc, hd]
    omega
  · have hb := @toNat_ofNat (v / 262144 % 8 + 240) (by omega)
    have hc := @toNat_ofNat (v / 4096 % 64 + 128) (by omega)
    have hd := @toNat_ofNat (v / 64 % 64 + 128) (by omega)
    have he := @toNat_ofNat (v % 64 + 128) (by omega)
    have hsecond := @secondNext_within (.ofNat (v / 262144 % 8 + 240)) _ 0xF0 0x90 0xF4 0x8F
      (continues_ofNat (v / 4096)) (by rw [hb, hc]; simp only [UInt8.reduceToNat]; omega)
      (by rw [hb, hc]; simp only [UInt8.reduceToNat]; omega)
    refine hof (character_of_within (lead_four (by omega))
      (.cons hsecond (.cons (continues_ofNat _) (.cons (continues_ofNat _) .nil)))) ?_
    simp only [extend, List.foldl_cons, List.foldl_nil, hb, hc, hd, he]
    omega

end EncodeChar

end OcamlTemporal.Lib.Utf8
