import Mathlib
import OcamlTemporal.Activity.Adapter
import OcamlTemporal.Protocol.Truncation
import OcamlTemporal.Sound.Utf8
import OcamlTemporal.Worker.Adapter

/-!
# OcamlTemporal.Sound.Truncation

**The two ways of backing off choose the same cut.** A valid text is one character
after another, so a place in it is between two characters exactly if no continuation
byte stands there (`isBoundary_iff_byte`), and exactly if the text up to it is valid
(`isBoundary_iff_valid`). Both loops search downwards from the limit, one with each test,
and so both end at the last place between characters.

They differ where that place is the start: stepping back then keeps nothing, shrinking
gives the fallback. From a limit of four bytes on, that cannot happen.

The diagnostics of the adapters go through the shrinking truncators, so that their
texts are valid and bounded whatever they were made of (`adapter_texts_ok`). The code
of a workflow diagnostic does not, and can be cut inside a character
(`boundedCode_splits`).
-/

namespace OcamlTemporal.Protocol

open Lib

variable {value : Bytes} {limit n : Nat}

/-- A place between two characters of the text. -/
abbrev IsBoundary (value : Bytes) (n : Nat) : Prop := Blocks.IsCut Utf8.IsCharacter value n

/-! ## Two tests for a place between characters -/

theorem continuation_iff (b : UInt8) : b &&& 0xC0 = 0x80 ↔ Utf8.Continues b := by
  have htable : ∀ i : Fin 256, UInt8.ofNat i.val &&& 0xC0 = 0x80 ↔ 0x80 ≤ i.val ∧ i.val ≤ 0xBF := by
    decide +kernel
  rw [Utf8.continues_iff]
  simpa using htable ⟨b.toNat, b.toNat_lt⟩

theorem isBoundary_iff_byte (hvalid : validUtf8 value = true) {b : UInt8}
    (hb : value[n]? = some b) :
    IsBoundary value n ↔ ¬ b &&& 0xC0 = 0x80 := by
  rw [continuation_iff]
  exact Blocks.isCut_iff Utf8.synchronizing (validUtf8_iff_whole.mp hvalid) hb

theorem isBoundary_iff_valid (hvalid : validUtf8 value = true) (hn : n ≤ value.length) :
    IsBoundary value n ↔ validUtf8 (value.take n) = true := by
  constructor
  · exact fun h => validUtf8_iff_whole.mpr h.front
  · intro h
    refine ⟨hn, validUtf8_iff_whole.mp h, validUtf8_iff_whole.mp ?_⟩
    rw [← validUtf8_append h, List.take_append_drop]
    exact hvalid

/-! ## The loops -/

theorem boundary_succ (h : limit + 1 < value.length) :
    boundary value (limit + 1) =
      if value[limit + 1] &&& 0xC0 = 0x80 then boundary value limit else .ok (limit + 1) := by
  rw [boundary, charAt, List.getElem?_eq_getElem h]
  rfl

/-- **Stepping back** ends, inside the text, at the last place between characters. -/
theorem boundary_spec (hvalid : validUtf8 value = true) (hlimit : limit < value.length) :
    ∃ n, boundary value limit = .ok n ∧ IsGreatest {m | m ≤ limit ∧ IsBoundary value m} n := by
  -- The limit stays inside the text on the way down, so no index is out of bounds.
  induction limit with
  | zero =>
    exact ⟨0, rfl, Blocks.isGreatest_self (.zero (validUtf8_iff_whole.mp hvalid))⟩
  | succ limit ih =>
    have hbyte := isBoundary_iff_byte hvalid (List.getElem?_eq_getElem hlimit)
    rw [boundary_succ hlimit]
    split_ifs with hcontinues
    · obtain ⟨n, hn, hgreatest⟩ := ih (Nat.lt_of_succ_lt hlimit)
      have hnot : ¬ IsBoundary value (limit + 1) := fun h => hbyte.mp h hcontinues
      exact ⟨n, hn, (Blocks.isGreatest_succ_iff hnot).mpr hgreatest⟩
    · exact ⟨limit + 1, rfl, Blocks.isGreatest_self (hbyte.mpr hcontinues)⟩

/-- **Shrinking** ends at the same place, unless that is the start. -/
theorem boundedPrefix_spec (hvalid : validUtf8 value = true) (hlimit : limit < value.length)
    (hn : IsGreatest {m | m ≤ limit ∧ IsBoundary value m} n) (hpos : 0 < n) (fallback : Bytes) :
    Activity.boundedPrefix fallback value limit = value.take n ++ text "..." := by
  induction limit with
  -- The fallback is never reached: a place between characters lies above it.
  | zero => exact absurd hn.1.1 (Nat.not_le.mpr hpos)
  | succ limit ih =>
    have hfront := isBoundary_iff_valid hvalid (Nat.le_of_lt hlimit)
    rw [Activity.boundedPrefix]
    split_ifs with htext
    · obtain rfl := hn.unique (Blocks.isGreatest_self (hfront.mpr htext))
      rfl
    · have hnot : ¬ IsBoundary value (limit + 1) := fun h => htext (hfront.mp h)
      exact ih (Nat.lt_of_succ_lt hlimit) ((Blocks.isGreatest_succ_iff hnot).mp hn)

/-- A character has at most four bytes, so one ends within the first four places. -/
theorem boundary_pos (hvalid : validUtf8 value = true) (hlimit : limit < value.length)
    (hfour : 4 ≤ limit) (hn : IsGreatest {m | m ≤ limit ∧ IsBoundary value m} n) : 0 < n := by
  obtain ⟨m, hm, hle, hwidth⟩ :=
    Blocks.exists_isCut Utf8.synchronizing (validUtf8_iff_whole.mp hvalid) hlimit
  have hmn : m ≤ n := hn.2 ⟨hle, hm⟩
  -- 4 ≤ limit < m + 4
  omega

/-! ## What the truncators return -/

/-- What a truncator owes for a text: valid text, the same one within the limit, and
never more than `size` bytes. -/
structure Truncates (limit size : Nat) (value result : Bytes) : Prop where
  valid : validUtf8 result = true
  unchanged : value.length ≤ limit → result = value
  bounded : result.length ≤ size

theorem Truncates.refl (hvalid : validUtf8 value = true) (hlimit : value.length ≤ limit)
    {size : Nat} (hsize : limit ≤ size) : Truncates limit size value value :=
  ⟨hvalid, fun _ => rfl, Nat.le_trans hlimit hsize⟩

/-- The text up to a place between characters, with the marker. -/
theorem Truncates.cut (hn : IsBoundary value n) (hlimit : limit < value.length) {size : Nat}
    (hsize : n + 3 ≤ size) : Truncates limit size value (value.take n ++ text "...") where
  valid := by
    rw [validUtf8_append (validUtf8_iff_whole.mpr hn.front)]
    decide +kernel
  unchanged h := absurd h (Nat.not_le.mpr hlimit)
  bounded := by
    have hmarker : (text "...").length = 3 := by decide +kernel
    rw [List.length_append, List.length_take_of_le hn.le, hmarker]
    exact hsize

theorem activity_truncates (hvalid : validUtf8 value = true) {maximum : Nat}
    (hmaximum : 7 ≤ maximum)
    (fallback : Bytes) :
    Truncates maximum maximum value (Activity.boundedText maximum fallback value) := by
  rw [Activity.boundedText, hvalid, if_neg (by decide)]
  split_ifs with hlength
  · exact .refl hvalid hlength (Nat.le_refl _)
  · have hlimit := Nat.lt_of_not_le hlength
    have hinside : maximum - 3 < value.length := Nat.lt_of_le_of_lt (Nat.sub_le _ 3) hlimit
    obtain ⟨n, -, hgreatest⟩ := boundary_spec hvalid hinside
    -- The marker is taken off the maximum first, so four bytes are left from seven on.
    have hpos := boundary_pos hvalid hinside (Nat.le_sub_of_add_le hmaximum) hgreatest
    rw [boundedPrefix_spec hvalid hinside hgreatest hpos]
    exact .cut hgreatest.1.2 hlimit (Nat.add_le_of_le_sub (by omega) hgreatest.1.1)

theorem boundedText_ok {maximum : Nat} {fallback : Bytes} (hmaximum : 7 ≤ maximum)
    (hfallback : validUtf8 fallback = true) (hlength : fallback.length ≤ maximum) (value : Bytes) :
    validUtf8 (Activity.boundedText maximum fallback value) = true ∧
      (Activity.boundedText maximum fallback value).length ≤ maximum := by
  cases hvalid : validUtf8 value with
  | true =>
    have htruncates := activity_truncates hvalid hmaximum fallback
    exact ⟨htruncates.valid, htruncates.bounded⟩
  | false =>
    rw [Activity.boundedText, hvalid]
    exact ⟨hfallback, hlength⟩

/-- The texts that the adapters send to Core are valid and bounded, whatever an
application put into them. -/
theorem adapter_texts_ok (path code message backtrace : Bytes) (retryable : Bool) :
    let activity := Activity.makeError path retryable code message
    let workflow := Worker.makeError path code message
    let failure := Activity.callbackExceptionFailure activity backtrace
    (validUtf8 activity.code = true ∧ activity.code.length ≤ 1024) ∧
      (validUtf8 activity.message = true ∧ activity.message.length ≤ 1024) ∧
      (validUtf8 workflow.message = true ∧ workflow.message.length ≤ 1024) ∧
      validUtf8 failure.stackTrace = true ∧ failure.stackTrace.length ≤ 8192 :=
  ⟨boundedText_ok (by decide) (by decide +kernel) (by decide +kernel) code,
    boundedText_ok (by decide) (by decide +kernel) (by decide +kernel) message,
    boundedText_ok (by decide) (by decide +kernel) (by decide +kernel) message,
    boundedText_ok (by decide) rfl (Nat.zero_le _) backtrace⟩

/-- The code of a workflow diagnostic is cut at a fixed byte, which can lie inside a
character. -/
theorem boundedCode_splits :
    ∃ value, validUtf8 value = true ∧ validUtf8 (Worker.boundedCode value) = false :=
  ⟨(List.replicate 65 [0xC3, 0xA9]).flatten, by decide +kernel, by decide +kernel⟩

end OcamlTemporal.Protocol
