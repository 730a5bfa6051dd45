import OcamlTemporal.Protocol.ErrorType
import OcamlTemporal.Sound.Utf8

/-!
# OcamlTemporal.Sound.ErrorType

The rewriting of an inbound error type always gives a type that the constructor
accepts, and leaves an acceptable type alone.

Both halves go through `validUtf8_induction`: a valid text is one character after
another. A chunk is clean whatever the text
(`clean_chunk`), clean texts append (`Clean.append`), and the encoded lengths of
the chunks add up, so the result is clean and within the limit. Of a clean text each
chunk is the character itself (`chunks_of_clean`).
-/

namespace OcamlTemporal.Protocol

open Lib

variable {value : Bytes} {parts : List (Bytes × Nat)}

/-! ## Clean texts -/

/-- Valid and without a control character. -/
structure Clean (value : Bytes) : Prop where
  valid : validUtf8 value = true
  printable : ∀ c ∈ value, ¬ (c < 0x20 ∨ c = 0x7F)

theorem Clean.append {rest : Bytes} (hvalue : Clean value) (hrest : Clean rest) :
    Clean (value ++ rest) := by
  refine ⟨?_, fun c hc => ?_⟩
  · rw [validUtf8_append hvalue.valid]
    exact hrest.valid
  · exact (List.mem_append.mp hc).elim (hvalue.printable c) (hrest.printable c)

theorem clean_nil : Clean [] := ⟨rfl, nofun⟩

theorem clean_flatten {texts : List Bytes} (h : ∀ value ∈ texts, Clean value) :
    Clean texts.flatten := by
  induction texts with
  | nil => exact clean_nil
  | cons value texts ih =>
    obtain ⟨hvalue, htexts⟩ := List.forall_mem_cons.mp h
    exact hvalue.append (ih htexts)

theorem control_iff (c : UInt8) : (c < 0x20 ∨ c = 0x7F) ↔ c.toNat < 0x20 ∨ c.toNat = 0x7F := by
  rw [UInt8.lt_iff_toNat_lt, ← UInt8.toNat_inj]
  rfl

theorem clean_character {piece : Bytes} {code : Nat} (h : Utf8.Character piece code)
    (hcode : ¬ (code < 0x20 ∨ code = 0x7F)) : Clean piece := by
  refine ⟨?_, fun c hc => ?_⟩
  · rw [← List.append_nil piece, validUtf8_character h]
    rfl
  · rw [control_iff]
    obtain ⟨b, -, rfl, rfl⟩ | ⟨-, hwide⟩ := h.ascii_or_wide
    · obtain rfl := List.mem_singleton.mp hc
      exact hcode
    · have hc := hwide c hc
      omega

theorem clean_of_ascii (h : ∀ c ∈ value, 0x20 ≤ c ∧ c < 0x7F) : Clean value := by
  induction value with
  | nil => exact clean_nil
  | cons b value ih =>
    obtain ⟨⟨hlow, hhigh⟩, hvalue⟩ := List.forall_mem_cons.mp h
    rw [UInt8.le_iff_toNat_le] at hlow
    rw [UInt8.lt_iff_toNat_lt] at hhigh
    have hb : Clean [b] :=
      clean_character (Utf8.character_ascii (UInt8.le_iff_toNat_le.mpr (Nat.le_of_lt hhigh)))
        (by
          change 0x20 ≤ b.toNat at hlow
          change b.toNat < 0x7F at hhigh
          omega)
    exact hb.append (ih hvalue)

/-! ## Encoded lengths -/

theorem foldl_encodedLength (value : Bytes) (n : Nat) :
    value.foldl (fun length c => if c = 0x22 ∨ c = 0x5C then length + 2 else length + 1) n =
      n + encodedLength value := by
  induction value generalizing n with
  | nil => rfl
  | cons c value ih =>
    rw [encodedLength, List.foldl_cons, List.foldl_cons, ih, ih]
    split_ifs <;> omega

theorem encodedLength_append (value rest : Bytes) :
    encodedLength (value ++ rest) = encodedLength value + encodedLength rest := by
  rw [encodedLength, List.foldl_append, foldl_encodedLength]
  rfl

/-- Chunks that carry their own encoded lengths. -/
def Measured (parts : List (Bytes × Nat)) : Prop := ∀ part ∈ parts, part.2 = encodedLength part.1

theorem Measured.total (h : Measured parts) (n : Nat) :
    parts.foldl (fun sum part => sum + part.2) n =
      n + encodedLength (parts.map Prod.fst).flatten := by
  induction parts generalizing n with
  | nil => rfl
  | cons part parts ih =>
    obtain ⟨hpart, hparts⟩ := List.forall_mem_cons.mp h
    rw [List.foldl_cons, ih hparts, List.map_cons, List.flatten_cons, encodedLength_append, hpart,
      Nat.add_assoc]

theorem Measured.encodedLength_takeChunks (h : Measured parts) {budget used : Nat}
    (hused : used ≤ budget) : used + encodedLength (takeChunks budget used parts) ≤ budget := by
  induction parts generalizing used with
  | nil => exact hused
  | cons part parts ih =>
    obtain ⟨hpart, hparts⟩ := List.forall_mem_cons.mp h
    unfold takeChunks
    split_ifs with hfits
    · have hle := ih hparts hfits
      rw [encodedLength_append]
      omega
    · exact hused

/-! ## The chunks -/

theorem clean_unicodeEscape (code : Nat) : Clean (unicodeEscape code) := by
  have hdigit : ∀ n < 16, 0x20 ≤ hexDigit n ∧ hexDigit n < 0x7F := by decide
  refine clean_of_ascii ?_
  simp only [unicodeEscape, List.forall_mem_cons]
  exact ⟨by decide, by decide, hdigit _ (Nat.mod_lt _ (by decide)),
    hdigit _ (Nat.mod_lt _ (by decide)), hdigit _ (Nat.mod_lt _ (by decide)),
    hdigit _ (Nat.mod_lt _ (by decide)), nofun⟩

theorem clean_chunk (value : Bytes) : Clean (chunk value) := by
  unfold chunk
  split
  · exact ⟨by decide +kernel, by decide +kernel⟩
  next code hcode =>
    split_ifs with hcontrol
    · exact clean_unicodeEscape code
    · obtain ⟨piece, rest, hvalue, hlength, hpiece⟩ := Utf8.decode_some hcode
      rw [← hlength, hvalue, List.take_left]
      exact clean_character hpiece hcontrol

/-- Each chunk stands for a character of the text, and carries its encoded length. -/
theorem chunks_spec (value : Bytes) :
    Measured (chunks value) ∧ ∀ part ∈ chunks value, Clean part.1 := by
  induction value using chunks.induct with
  | case1 =>
    rw [chunks]
    exact ⟨nofun, nofun⟩
  | case2 b rest value ih =>
    rw [chunks]
    exact ⟨List.forall_mem_cons.mpr ⟨rfl, ih.1⟩,
      List.forall_mem_cons.mpr ⟨clean_chunk _, ih.2⟩⟩

theorem clean_takeChunks (h : ∀ part ∈ parts, Clean part.1) (budget used : Nat) :
    Clean (takeChunks budget used parts) := by
  induction parts generalizing used with
  | nil => exact clean_nil
  | cons part parts ih =>
    obtain ⟨hpart, hparts⟩ := List.forall_mem_cons.mp h
    unfold takeChunks
    split_ifs
    · exact hpart.append (ih hparts _)
    · exact clean_nil

theorem chunks_of_clean (h : Clean value) : ((chunks value).map Prod.fst).flatten = value := by
  obtain ⟨hvalid, hprintable⟩ := h
  revert hprintable
  refine validUtf8_induction
    (motive := fun value => (∀ c ∈ value, ¬ (c < 0x20 ∨ c = 0x7F)) →
      ((chunks value).map Prod.fst).flatten = value) (fun _ => by rw [chunks]; rfl) ?_ value hvalid
  intro piece code rest hpiece ih hprintable
  have hcode : ¬ (code < 0x20 ∨ code = 0x7F) := by
    obtain ⟨b, -, rfl, rfl⟩ | ⟨hwide, -⟩ := hpiece.ascii_or_wide
    · rw [← control_iff]
      exact hprintable b List.mem_cons_self
    · omega
  have hdecode := hpiece.decode_eq rest
  have hchunk : chunk (piece ++ rest) = piece := by
    rw [chunk, hdecode]
    dsimp only
    rw [if_neg hcode, List.take_left]
  obtain ⟨b, piece, rfl⟩ := List.exists_cons_of_ne_nil hpiece.ne_nil
  rw [List.cons_append] at hdecode hchunk ⊢
  rw [chunks, List.map_cons, List.flatten_cons, hchunk, hdecode, ← List.cons_append, List.drop_left,
    ih fun c hc => hprintable c (List.mem_append_right _ hc)]

/-! ## The rewriting -/

theorem normalizeErrorType_iff :
    (∃ normalized, normalizeErrorType (some value) = .ok normalized) ↔
      Clean value ∧ encodedLength value ≤ maxErrorTypeBytes := by
  have hprintable : (∀ c ∈ value, ¬ (c < 0x20 ∨ c = 0x7F)) ↔
      ¬ value.any (fun c => c < 0x20 || c = 0x7F) = true := by
    simp only [List.any_eq_true, Bool.or_eq_true, decide_eq_true_eq, not_exists, not_and]
  rw [normalizeErrorType]
  by_cases hempty : value = []
  · rw [if_pos hempty, hempty]
    exact ⟨fun _ => ⟨clean_nil, Nat.zero_le _⟩, fun _ => ⟨_, rfl⟩⟩
  rw [if_neg hempty]
  constructor
  · rintro ⟨normalized, h⟩
    split at h
    · cases h
    next hvalid =>
      split at h
      · cases h
      next hcontrol =>
        split at h
        · cases h
        next hlength =>
          exact ⟨⟨Bool.not_eq_false _ ▸ hvalid, hprintable.mpr hcontrol⟩, Nat.le_of_not_gt hlength⟩
  · rintro ⟨hclean, hlength⟩
    rw [hclean.valid, if_neg (by decide), if_neg (hprintable.mp hclean.printable),
      if_neg (show ¬ encodedErrorTypeLength value > _ from Nat.not_lt.mpr hlength)]
    exact ⟨_, rfl⟩

theorem sanitize_accepted (value : Bytes) :
    Clean (sanitizeInboundErrorType value) ∧
      encodedLength (sanitizeInboundErrorType value) ≤ maxErrorTypeBytes := by
  obtain ⟨hmeasured, hclean⟩ := chunks_spec value
  unfold sanitizeInboundErrorType
  dsimp only
  split_ifs with hfits
  · rw [hmeasured.total, Nat.zero_add] at hfits
    refine ⟨clean_flatten fun text htext => ?_, hfits⟩
    obtain ⟨part, hpart, rfl⟩ := List.mem_map.mp htext
    exact hclean part hpart
  · refine ⟨(clean_takeChunks hclean _ _).append ⟨by decide +kernel, by decide +kernel⟩, ?_⟩
    have htake := hmeasured.encodedLength_takeChunks
      (Nat.zero_le (maxInboundErrorTypeEncodedLength - inboundErrorTypeTruncationMarker.length))
    rw [encodedLength_append]
    have hmarker : encodedLength inboundErrorTypeTruncationMarker = 3 := by decide
    have hlength : inboundErrorTypeTruncationMarker.length = 3 := by decide
    rw [hlength] at htake ⊢
    rw [hmarker]
    simp only [maxInboundErrorTypeEncodedLength, maxErrorTypeBytes] at htake ⊢
    omega

theorem sanitize_of_accepted (hclean : Clean value)
    (hlength : encodedLength value ≤ maxErrorTypeBytes) :
    sanitizeInboundErrorType value = value := by
  unfold sanitizeInboundErrorType
  dsimp only
  rw [(chunks_spec value).1.total, Nat.zero_add, chunks_of_clean hclean]
  exact if_pos hlength

/-- What the rewriting of an inbound type promises. -/
structure SanitizeOk (value : Bytes) : Prop where
  accepted : ∃ normalized,
    normalizeErrorType (some (sanitizeInboundErrorType value)) = .ok normalized
  unchanged : (∃ normalized, normalizeErrorType (some value) = .ok normalized) →
    sanitizeInboundErrorType value = value
  idempotent :
    sanitizeInboundErrorType (sanitizeInboundErrorType value) = sanitizeInboundErrorType value

/-- **What an inbound error type becomes is one that the constructor takes**, a type that the
constructor takes stays as it is, and sanitizing twice does nothing more. -/
theorem sanitize_ok (value : Bytes) : SanitizeOk value := by
  obtain ⟨hclean, hlength⟩ := sanitize_accepted value
  refine ⟨normalizeErrorType_iff.mpr ⟨hclean, hlength⟩, fun h => ?_,
    sanitize_of_accepted hclean hlength⟩
  obtain ⟨hvalue, hvalueLength⟩ := normalizeErrorType_iff.mp h
  exact sanitize_of_accepted hvalue hvalueLength

/-- A type that the constructor takes is not rewritten. -/
theorem sanitize_ok_name :
    normalizeErrorType (some (text "Timeout")) = .ok (some (text "Timeout")) ∧
      sanitizeInboundErrorType (text "Timeout") = text "Timeout" :=
  ⟨rfl, (sanitize_ok _).unchanged ⟨_, rfl⟩⟩

end OcamlTemporal.Protocol
