import Mathlib
import OcamlTemporal.Bridge.CoreLog
import OcamlTemporal.Sound.Utf8

/-!
# OcamlTemporal.Sound.CoreLog

**A record is one line.** The writer escapes and bounds character by character. `Wrote` is what
holds after every write: what is in the buffer is all that was to be written so far or, once it is
truncated, a prefix of it; it is made of whole characters, none of them a control character; and it
is within the budget that leaves room for the marker.
-/

namespace OcamlTemporal.Bridge.CoreLog

open OcamlTemporal.Protocol

/-! ## Characters

A buffer of the formatter is bytes, but what is pushed into it are characters. A text made of whole
characters is valid UTF-8, and one without control characters has no byte of a newline. -/

theorem validUtf8_utf8 (characters : List Char) : validUtf8 (utf8 characters) = true := by
  induction characters with
  | nil => rfl
  | cons c characters ih =>
    rw [utf8, List.flatMap_cons, validUtf8_character (Lib.Utf8.character_encodeChar c)]
    exact ih

/-- The byte of the newline is in no other character. -/
theorem newline_mem_encodeChar {c : Char} (h : 10 ∈ String.utf8EncodeChar c) : c = '\n' := by
  obtain ⟨b, -, hpiece, hcode⟩ | ⟨-, hwide⟩ := (Lib.Utf8.character_encodeChar c).ascii_or_wide
  · rw [hpiece, List.mem_singleton] at h
    exact Char.toNat_inj.mp (hcode.trans (congrArg UInt8.toNat h.symm))
  · exact absurd (hwide 10 h) (by decide)

theorem newline_notMem_utf8 {characters : List Char}
    (h : ∀ c ∈ characters, isControl c = false) : (10 : UInt8) ∉ utf8 characters := by
  intro hmem
  obtain ⟨c, hc, hten⟩ := List.mem_flatMap.mp hmem
  have hctl := h c hc
  rw [newline_mem_encodeChar hten] at hctl
  cases hctl

theorem utf8_append (a b : List Char) : utf8 (a ++ b) = utf8 a ++ utf8 b := List.flatMap_append

/-! ## Escapes

Control characters are written as escapes, whose characters are letters, digits, backslashes and
braces. A character that is no control character is written as it is. -/

theorem isControl_eq_false_iff {c : Char} :
    isControl c = false ↔ 32 ≤ c.toNat ∧ (c.toNat < 127 ∨ 160 ≤ c.toNat) := by
  simp only [isControl, Bool.or_eq_false_iff, Bool.and_eq_false_iff, decide_eq_false_iff_not]
  omega

theorem isControl_digitChar {n : Nat} (h : n < 16) : isControl n.digitChar = false := by
  revert n
  decide

theorem isControl_hexDigit {n : Nat} : ∀ c ∈ Nat.toDigits 16 n, isControl c = false := by
  induction n using Nat.strong_induction_on with
  | _ n ih =>
    intro c hc
    by_cases hn : n < 16
    · rw [Nat.toDigits_of_lt_base hn, List.mem_singleton] at hc
      exact hc ▸ isControl_digitChar hn
    · rw [Nat.toDigits_of_base_le (by decide) (Nat.le_of_not_lt hn), List.mem_append,
        List.mem_singleton] at hc
      rcases hc with hc | rfl
      · exact ih _ (by omega) c hc
      · exact isControl_digitChar (by omega)

theorem isControl_escapeUnicode (c : Char) : ∀ d ∈ escapeUnicode c, isControl d = false := by
  intro d hd
  simp only [escapeUnicode, List.mem_append, List.mem_cons, List.not_mem_nil, or_false] at hd
  rcases hd with ((rfl | rfl | rfl) | hd) | rfl
  · rfl
  · rfl
  · rfl
  · exact isControl_hexDigit d hd
  · rfl

theorem isControl_escapeDefault (c : Char) : ∀ d ∈ escapeDefault c, isControl d = false := by
  have hpair : ∀ {e d : Char}, d ∈ ['\\', e] → isControl e = false → isControl d = false := by
    intro e d hd he
    rcases List.mem_pair.mp hd with rfl | rfl
    · rfl
    · exact he
  intro d hd
  unfold escapeDefault at hd
  split_ifs at hd with h₁ h₂ h₃ h₄ h₅
  · exact hpair hd rfl
  · exact hpair hd rfl
  · exact hpair hd rfl
  · rcases h₄ with rfl | rfl | rfl
    all_goals exact hpair hd rfl
  · rw [List.mem_singleton.mp hd, isControl_eq_false_iff]
    omega
  · exact isControl_escapeUnicode c d hd

namespace BoundedText

theorem unit_eq_utf8 (c : Char) : ∃ cs, unit c = utf8 cs ∧ ∀ d ∈ cs, isControl d = false := by
  unfold unit
  split_ifs with h
  · exact ⟨_, rfl, isControl_escapeDefault c⟩
  · refine ⟨[c], (List.append_nil _).symm, fun d hd => ?_⟩
    rw [List.mem_singleton.mp hd, Bool.not_eq_true] at *
    exact h

/-! ## The writer

The invariant is about what has been written so far, not about the fragments in which it came:
pushing a fragment is pushing its characters, and a truncated buffer takes no more. -/

/-- What is in the buffer when `chars` has been written to it. `whole` and `cut` compare it with the
escapes of all of `chars`, `fits` keeps the room for the marker free, and `clean` is what makes a
cut harmless: it never falls into a character. -/
structure Wrote (buffer : BoundedText) (chars : List Char) : Prop where
  whole : buffer.truncated = false → buffer.text = chars.flatMap unit
  cut : buffer.text <+: chars.flatMap unit
  fits : buffer.text.length ≤ buffer.limit - truncatedMarker.length
  clean : ∃ cs, buffer.text = utf8 cs ∧ ∀ c ∈ cs, isControl c = false

theorem wrote_new (limit : Nat) : Wrote (new limit) [] :=
  ⟨fun _ => rfl, List.prefix_rfl, Nat.zero_le _, [], rfl, List.forall_mem_nil _⟩

variable {buffer : BoundedText} {chars : List Char}

theorem Wrote.skip (h : Wrote buffer chars) (ht : buffer.truncated = true) (more : List Char) :
    Wrote buffer (chars ++ more) where
  whole hf := by rw [ht] at hf; cases hf
  cut := by
    rw [List.flatMap_append]
    exact h.cut.trans (List.prefix_append _ _)
  fits := h.fits
  clean := h.clean

/-- One character more: its escape is appended as a whole if it fits, and otherwise the buffer is
truncated from now on. -/
theorem Wrote.pushUnit (h : Wrote buffer chars) (ht : buffer.truncated = false) (c : Char) :
    Wrote (buffer.pushUnit (unit c) (buffer.limit - truncatedMarker.length)) (chars ++ [c]) := by
  have hwhole := h.whole ht
  obtain ⟨cs, hcs, hclean⟩ := h.clean
  obtain ⟨ds, hds, hunit⟩ := unit_eq_utf8 c
  have hfull : (chars ++ [c]).flatMap unit = buffer.text ++ unit c := by
    rw [List.flatMap_append, List.flatMap_singleton, ← hwhole]
  unfold BoundedText.pushUnit
  split_ifs with hover
  · refine ⟨fun hf => (by cases hf), ?_, h.fits, cs, hcs, hclean⟩
    rw [hfull]
    exact List.prefix_append _ _
  · refine ⟨fun _ => hfull.symm, hfull ▸ List.prefix_rfl, ?_, cs ++ ds, ?_, ?_⟩
    · rw [List.length_append]
      exact Nat.le_of_not_lt hover
    · rw [utf8_append, ← hcs, ← hds]
    · intro d hd
      rcases List.mem_append.mp hd with hd | hd
      · exact hclean d hd
      · exact hunit d hd

theorem Wrote.push (h : Wrote buffer chars) (fragment : List Char) :
    Wrote (buffer.push fragment) (chars ++ fragment) := by
  induction fragment generalizing buffer chars with
  | nil => rwa [List.append_nil]
  | cons c fragment ih =>
    rw [BoundedText.push]
    split_ifs with ht
    · exact h.skip ht _
    · have hnext := ih (h.pushUnit (Bool.eq_false_of_not_eq_true ht) c)
      rwa [List.append_assoc, List.singleton_append] at hnext

theorem push_limit (self : BoundedText) (fragment : List Char) :
    (self.push fragment).limit = self.limit := by
  induction fragment generalizing self with
  | nil => rfl
  | cons c fragment ih =>
    rw [push]
    split_ifs with ht
    · rfl
    · rw [ih, pushUnit]
      split_ifs
      · rfl
      · rfl

end BoundedText

/-! ## The line

A record is its level, target and message and then its fields by the order of their keys, each
after a blank and with an equals sign between key and value. -/

def fieldText (fields : Fields) (key : List Char) : List Char :=
  [' '] ++ key ++ ['='] ++ (fields.lookup key).getD []

/-- The line as it would be before escaping and without a bound, so that the theorem can say what a
cut line is a prefix of. -/
def lineText (level target message : List Char) (fields : Fields) : List Char :=
  "ocaml-temporal core ".toList ++ level ++ [' '] ++ target ++ [':', ' '] ++ message ++
    (sortedKeys fields).flatMap (fieldText fields)

theorem wrote_pushField (fields : Fields) {line : BoundedText} {chars : List Char}
    (h : line.Wrote chars) (key : List Char) :
    (pushField fields line key).Wrote (chars ++ fieldText fields key) := by
  have hname := ((h.push [' ']).push key).push ['=']
  simp only [pushField, fieldText]
  cases fields.lookup key with
  | none => simpa only [Option.getD_none, List.append_nil, List.append_assoc] using hname
  | some value =>
    simpa only [Option.getD_some, List.append_assoc] using hname.push value

theorem pushField_limit (fields : Fields) (line : BoundedText) (key : List Char) :
    (pushField fields line key).limit = line.limit := by
  simp only [pushField]
  cases fields.lookup key with
  | none => simp only [BoundedText.push_limit]
  | some value => simp only [BoundedText.push_limit]

theorem wrote_fields (fields : Fields) {line : BoundedText} {chars : List Char}
    (h : line.Wrote chars) (keys : List (List Char)) :
    (keys.foldl (pushField fields) line).Wrote (chars ++ keys.flatMap (fieldText fields)) ∧
      (keys.foldl (pushField fields) line).limit = line.limit := by
  induction keys generalizing line chars with
  | nil => exact ⟨by rwa [List.flatMap_nil, List.append_nil], rfl⟩
  | cons key keys ih =>
    obtain ⟨hwrote, hlimit⟩ := ih (wrote_pushField fields h key)
    rw [List.append_assoc] at hwrote
    exact ⟨hwrote, hlimit.trans (pushField_limit fields line key)⟩

/-- What the formatter has in its buffer when it finishes. -/
theorem written (level target message : List Char) (fields : Fields) :
    ∃ line : BoundedText, formatCoreLogLine level target message fields = line.finish ++ [10] ∧
      line.Wrote (lineText level target message fields) ∧ line.limit = maxCoreLogLineBytes := by
  have hhead := (((((BoundedText.wrote_new maxCoreLogLineBytes).push
    "ocaml-temporal core ".toList).push level).push [' ']).push target).push [':', ' ']
  rw [List.nil_append] at hhead
  obtain ⟨hwrote, hlimit⟩ := wrote_fields fields (hhead.push message) (sortedKeys fields)
  simp only [BoundedText.push_limit] at hlimit
  exact ⟨_, rfl, hwrote, hlimit⟩

/-- The marker is characters too, and none of them is a control character. -/
theorem truncatedMarker_clean :
    ∃ cs, truncatedMarker = utf8 cs ∧ ∀ c ∈ cs, isControl c = false :=
  ⟨['.', '.', '.', '[', 't', 'r', 'u', 'n', 'c', 'a', 't', 'e', 'd', ']'], by decide +kernel, by
    simp only [List.forall_mem_cons]
    exact ⟨rfl, rfl, rfl, rfl, rfl, rfl, rfl, rfl, rfl, rfl, rfl, rfl, rfl, rfl,
      List.forall_mem_nil _⟩⟩

/-- A finished text is whole characters without control characters, within the limit, and everything
that was written or a prefix of it with the marker. -/
theorem BoundedText.Wrote.finish {buffer : BoundedText} {chars : List Char} (h : buffer.Wrote chars)
    (hlimit : truncatedMarker.length ≤ buffer.limit) :
    (∃ cs, buffer.finish = utf8 cs ∧ ∀ c ∈ cs, isControl c = false) ∧
      buffer.finish.length ≤ buffer.limit ∧
      (buffer.finish = chars.flatMap unit ∨
        ∃ p, p <+: chars.flatMap unit ∧ buffer.finish = p ++ truncatedMarker) := by
  have hfits := h.fits
  obtain ⟨cs, hcs, hclean⟩ := h.clean
  obtain ⟨ms, hms, hmarker⟩ := truncatedMarker_clean
  unfold BoundedText.finish
  split_ifs with ht
  · refine ⟨⟨cs ++ ms, by rw [utf8_append, ← hcs, ← hms], ?_⟩, ?_, .inr ⟨_, h.cut, rfl⟩⟩
    · intro c hc
      rcases List.mem_append.mp hc with hc | hc
      · exact hclean c hc
      · exact hmarker c hc
    · rw [List.length_append]
      omega
  · exact ⟨⟨cs, hcs, hclean⟩, by omega, .inl (h.whole (Bool.eq_false_of_not_eq_true ht))⟩

/-- Every record is one line: its only newline is the one that ends it, it has no other control
character, it is within the limit, it is valid UTF-8, and it is the whole escaped record or a prefix
of that with the marker. -/
theorem core_log_line_ok (level target message : List Char) (fields : Fields) :
    ∃ body, formatCoreLogLine level target message fields = body ++ [10] ∧ 10 ∉ body ∧
      (∃ cs, body = utf8 cs ∧ ∀ c ∈ cs, isControl c = false) ∧
      body.length ≤ maxCoreLogLineBytes ∧
      validUtf8 (formatCoreLogLine level target message fields) = true ∧
      (body = (lineText level target message fields).flatMap BoundedText.unit ∨
        ∃ p, p <+: (lineText level target message fields).flatMap BoundedText.unit ∧
          body = p ++ truncatedMarker) := by
  obtain ⟨line, hline, hwrote, hlimit⟩ := written level target message fields
  obtain ⟨⟨cs, hcs, hclean⟩, hlength, hfull⟩ := hwrote.finish (by rw [hlimit]; decide +kernel)
  have hutf8 : formatCoreLogLine level target message fields = utf8 (cs ++ ['\n']) := by
    rw [hline, utf8_append, ← hcs]
    rfl
  refine ⟨_, hline, ?_, ⟨cs, hcs, hclean⟩, hlimit ▸ hlength, ?_, hfull⟩
  · rw [hcs]
    exact newline_notMem_utf8 hclean
  · rw [hutf8]
    exact validUtf8_utf8 _

end OcamlTemporal.Bridge.CoreLog
