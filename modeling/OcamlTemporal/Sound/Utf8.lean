import OcamlTemporal.Lib.Utf8
import OcamlTemporal.Protocol.Values

/-!
# OcamlTemporal.Sound.Utf8

**A text that the boundary accepts is one character after another.** `validUtf8` follows the
source, which matches on up to four bytes at a time; `Lib.Utf8` decodes one character from
the front, after a table of first bytes. `validUtf8_cons` ties the two: a text is valid
exactly if its first character decodes and the rest is valid. The rest of the module reads off
it what the proofs about texts use: valid texts append, they are characters in a row, and
an induction over them goes from character to character.
-/

namespace OcamlTemporal.Protocol

open Lib

/-- Whether a character was decoded and the rest of the text is valid. -/
def validFrom (value : Bytes) (decoded : Utf8.Decoded) : Bool :=
  match decoded.uchar with
  | none => false
  | some _ => validUtf8 (value.drop decoded.length)

theorem validFrom_follow_cons (value rest : Bytes) (code length : Nat) (low high c : UInt8)
    (bounds : List (UInt8 × UInt8)) :
    validFrom value (Utf8.follow code length ((low, high) :: bounds) (c :: rest)) =
      (low ≤ c && c ≤ high &&
        validFrom value (Utf8.follow (code * 64 + (c.toNat - 0x80)) (length + 1) bounds rest)) := by
  rw [Utf8.follow]
  by_cases h : low ≤ c ∧ c ≤ high
  · rw [if_pos h, decide_eq_true h.1, decide_eq_true h.2]
    rfl
  · rw [if_neg h, ← Bool.decide_and, decide_eq_false h]
    rfl

theorem validFrom_follow_any (value rest : Bytes) (code length : Nat) (c : UInt8)
    (bounds : List (UInt8 × UInt8)) :
    validFrom value (Utf8.follow code length (Utf8.anyNext :: bounds) (c :: rest)) =
      (isContinuation c &&
        validFrom value (Utf8.follow (code * 64 + (c.toNat - 0x80)) (length + 1) bounds rest)) :=
  validFrom_follow_cons ..

theorem validFrom_follow_second (value rest : Bytes) (code length : Nat)
    (least low other high b c : UInt8) (bounds : List (UInt8 × UInt8)) :
    validFrom value
        (Utf8.follow code length (Utf8.secondNext least low other high b :: bounds) (c :: rest)) =
      ((if b = least then low ≤ c && c ≤ 0xBF
        else if b = other then 0x80 ≤ c && c ≤ high
        else isContinuation c) &&
        validFrom value (Utf8.follow (code * 64 + (c.toNat - 0x80)) (length + 1) bounds rest)) := by
  rw [Utf8.secondNext]
  by_cases hleast : b = least
  · rw [if_pos hleast, if_pos hleast]
    exact validFrom_follow_cons ..
  · rw [if_neg hleast, if_neg hleast]
    by_cases hother : b = other
    · rw [if_pos hother, if_pos hother]
      exact validFrom_follow_cons ..
    · rw [if_neg hother, if_neg hother]
      exact validFrom_follow_any ..

/-- A text is valid if its first character decodes and the rest is valid. -/
theorem validUtf8_cons (b : UInt8) (rest : Bytes) :
    validUtf8 (b :: rest) = validFrom (b :: rest) (Utf8.decode (b :: rest)) := by
  rw [validUtf8.eq_def, Utf8.decode, Utf8.lead]
  dsimp only
  by_cases h₁ : b ≤ 0x7F
  · rw [if_pos h₁, if_pos h₁]
    rfl
  by_cases h₂ : b < 0xC2
  · rw [if_neg h₁, if_neg h₁, if_pos h₂, if_pos h₂]
    rfl
  rw [if_neg h₁, if_neg h₁, if_neg h₂, if_neg h₂]
  by_cases h₃ : b ≤ 0xDF
  · rw [if_pos h₃]
    cases rest with
    | nil => rfl
    | cons c rest =>
      dsimp only
      rw [if_pos h₃, validFrom_follow_any]
      rfl
  rw [if_neg h₃]
  by_cases h₄ : b ≤ 0xEF
  · rw [if_pos h₄]
    rcases rest with _ | ⟨c, _ | ⟨d, rest⟩⟩
    · rfl
    · dsimp only
      rw [if_neg h₃, Utf8.secondOfThree, validFrom_follow_second]
      exact (Bool.and_false _).symm
    · dsimp only
      rw [if_neg h₃, if_pos h₄, Utf8.secondOfThree, validFrom_follow_second, validFrom_follow_any,
        Bool.and_assoc]
      rfl
  rw [if_neg h₄]
  by_cases h₅ : b ≤ 0xF4
  · rw [if_pos h₅]
    rcases rest with _ | ⟨c, _ | ⟨d, _ | ⟨e, rest⟩⟩⟩
    · rfl
    · dsimp only
      rw [if_neg h₃, Utf8.secondOfFour, validFrom_follow_second]
      exact (Bool.and_false _).symm
    · dsimp only
      rw [if_neg h₃, if_neg h₄, Utf8.secondOfFour, validFrom_follow_second, validFrom_follow_any]
      exact ((congrArg _ (Bool.and_false _)).trans (Bool.and_false _)).symm
    · dsimp only
      rw [if_neg h₃, if_neg h₄, Utf8.secondOfFour, validFrom_follow_second, validFrom_follow_any,
        validFrom_follow_any, decide_eq_true h₅, Bool.true_and, Bool.and_assoc, Bool.and_assoc]
      rfl
  · rw [if_neg h₅]
    rcases rest with _ | ⟨c, _ | ⟨d, _ | ⟨e, rest⟩⟩⟩
    · rfl
    · dsimp only
      rw [if_neg h₃]
      rfl
    · dsimp only
      rw [if_neg h₃, if_neg h₄]
      rfl
    · dsimp only
      rw [if_neg h₃, if_neg h₄, decide_eq_false h₅]
      rfl

theorem validUtf8_character {piece : Bytes} {code : Nat} (h : Utf8.Character piece code)
    (rest : Bytes) : validUtf8 (piece ++ rest) = validUtf8 rest := by
  have hdecode := h.decode_eq rest
  match piece, h.ne_nil with
  | b :: piece, _ =>
    rw [List.cons_append] at hdecode ⊢
    rw [validUtf8_cons, hdecode, validFrom]
    dsimp only
    rw [← List.cons_append, List.drop_left]

/-- A valid text is one character after another. -/
theorem validUtf8_induction {motive : Bytes → Prop} (nil : motive [])
    (character : ∀ piece code rest, Utf8.Character piece code → motive rest →
      motive (piece ++ rest))
    (value : Bytes) (h : validUtf8 value = true) : motive value := by
  induction hn : value.length using Nat.strongRecOn generalizing value with
  | _ n ih =>
    match value with
    | [] => exact nil
    | b :: tail =>
      rw [validUtf8_cons, validFrom] at h
      split at h
      · cases h
      next code hcode =>
        obtain ⟨piece, rest, hvalue, hlength, hpiece⟩ := Utf8.decode_some hcode
        rw [hvalue, ← hvalue, ← hlength, hvalue, List.drop_left] at h
        rw [hvalue, List.length_append] at hn
        have hpos := List.length_pos_of_ne_nil hpiece.ne_nil
        rw [hvalue]
        exact character piece code rest hpiece (ih rest.length (by omega) rest h rfl)

variable {value : Bytes}

theorem validUtf8_append {rest : Bytes} (h : validUtf8 value = true) :
    validUtf8 (value ++ rest) = validUtf8 rest := by
  refine validUtf8_induction (motive := fun value => validUtf8 (value ++ rest) = validUtf8 rest)
    rfl ?_ value h
  intro piece code tail hpiece ih
  rw [List.append_assoc, validUtf8_character hpiece]
  exact ih

/-- A text is valid exactly if it is one character after another. -/
theorem validUtf8_iff_whole : validUtf8 value = true ↔ Blocks.Whole Utf8.IsCharacter value := by
  constructor
  · exact validUtf8_induction .nil (fun piece code rest hpiece ih => .cons ⟨code, hpiece⟩ ih) value
  · intro h
    induction h with
    | nil => rfl
    | cons hpiece _ ih =>
      obtain ⟨code, hpiece⟩ := hpiece
      rw [validUtf8_character hpiece]
      exact ih

theorem validUtf8_ascii (h : ∀ b ∈ value, b ≤ 0x7F) : validUtf8 value = true := by
  induction value with
  | nil => rfl
  | cons b value ih =>
    obtain ⟨hb, hvalue⟩ := List.forall_mem_cons.mp h
    exact (validUtf8_character (Utf8.character_ascii hb) value).trans (ih hvalue)

end OcamlTemporal.Protocol
