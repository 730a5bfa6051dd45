import Mathlib.Algebra.Order.BigOperators.Group.List
import Mathlib.Algebra.Order.Ring.Nat
import OcamlTemporal.Base.Codec
import OcamlTemporal.Lib.Outcome

/-!
# OcamlTemporal.Sound.OptionCodec

Optional values survive their encoding, at every depth of nesting and over every
codec that inverts itself.

Each reader of the envelope is specified by what stands at the position where it
reads (`readU32_iff`, `readField_iff`, `readMetadata_iff`). Since these are
equivalences, `deserializePayload_iff` gives both directions at once: what is
serialized is read back, and nothing else is accepted. The option codec wraps a
payload exactly if the payload's encoding is one that its decoder treats
specially, so its decoder can tell which case it is in (`option_inverts`).
-/

namespace OcamlTemporal.Base.Codec

open Protocol (Bytes text)
open Lib

/-! ## The envelope -/

/-- A metadata entry whose lengths fit into the envelope. -/
def Sized (entry : Bytes × Bytes) : Prop := entry.1.length < 2 ^ 31 ∧ entry.2.length < 2 ^ 31

/-- A payload whose count and lengths fit into the envelope. -/
structure Framed (payload : Protocol.Payload) : Prop where
  count : payload.metadata.length < 2 ^ 31
  fields : ∀ entry ∈ payload.metadata, Sized entry
  data : payload.data.length < 2 ^ 31

instance (entry : Bytes × Bytes) : Decidable (Sized entry) := inferInstanceAs (Decidable (_ ∧ _))

instance (payload : Protocol.Payload) : Decidable (Framed payload) :=
  decidable_of_iff
    (payload.metadata.length < 2 ^ 31 ∧ (∀ entry ∈ payload.metadata, Sized entry) ∧
      payload.data.length < 2 ^ 31)
    ⟨fun h => ⟨h.1, h.2.1, h.2.2⟩, fun h => ⟨h.count, h.fields, h.data⟩⟩

section Readers

variable {data : Bytes} {position next : Nat}

theorem readU32_iff {n : Nat} :
    readU32 data position = some ((n : Int), next) ↔
      n < 2 ^ 31 ∧ Takes (be32 n) data position next := by
  unfold readU32
  split
  next hlong =>
    refine ⟨nofun, ?_⟩
    rintro ⟨-, htakes⟩
    have hle := htakes.next_le
    rw [htakes.next_eq, length_be32] at hle
    omega
  next hshort =>
    have hlength : (slice data position 4).length = 4 := length_slice (by omega)
    match hword : slice data position 4, hlength with
    | [a, b, c, d], _ =>
      have hget : getInt32Be data position = ofBe32 a b c d := by
        rw [getInt32Be, hword]
      simp only [Option.some.injEq, Prod.mk.injEq, hget, ofBe32_eq_iff, and_assoc]
      refine and_congr_right fun _ => ⟨?_, fun h => ?_⟩
      · rintro ⟨heq, rfl⟩
        exact (takes_iff_slice (by omega)).mpr (hword.trans heq)
      · obtain rfl := h.next_eq
        exact ⟨hword.symm.trans ((takes_iff_slice (by omega)).mp h), rfl⟩

theorem readField_iff {value : Bytes} :
    readField data position = some (value, next) ↔
      value.length < 2 ^ 31 ∧ Takes (addField value) data position next := by
  unfold readField
  constructor
  · intro h
    split at h
    · cases h
    next size mid hsize =>
      split_ifs at h with hbad
      obtain ⟨n, rfl⟩ := Int.eq_ofNat_of_zero_le (a := size) (by omega)
      obtain ⟨hn, htakes⟩ := readU32_iff.mp hsize
      obtain ⟨rfl, rfl⟩ := Prod.mk.inj (Option.some.inj h)
      rw [Int.toNat_natCast]
      have hlength : (slice data mid n).length = n := length_slice (by omega)
      refine ⟨by omega, takes_append.mpr ⟨mid, ?_, (takes_iff_slice (by omega)).mpr rfl⟩⟩
      rw [hlength]
      exact htakes
  · rintro ⟨hlength, htakes⟩
    obtain ⟨mid, hword, hvalue⟩ := takes_append.mp htakes
    have hnext := hvalue.next_eq
    have hle := hvalue.next_le
    rw [readU32_iff.mpr ⟨hlength, hword⟩]
    dsimp only
    rw [if_neg (by omega), Int.toNat_natCast, ← hnext]
    subst hnext
    rw [(takes_iff_slice hle).mp hvalue]

/-- By induction on the entries left to read. -/
theorem readMetadata_iff {acc metadata : List (Bytes × Bytes)} {remaining : Nat}
    (hposition : position ≤ data.length) :
    readMetadata data remaining position acc = some (metadata, next) ↔
      ∃ entries, metadata = acc.reverse ++ entries ∧ entries.length = remaining ∧
        (∀ entry ∈ entries, Sized entry) ∧ Takes (entries.flatMap addEntry) data position next := by
  induction remaining generalizing position acc with
  | zero =>
    simp only [readMetadata, Option.some.injEq, Prod.mk.injEq, List.length_eq_zero_iff]
    constructor
    · rintro ⟨rfl, rfl⟩
      exact ⟨[], (List.append_nil _).symm, rfl, nofun, takes_nil.mpr ⟨hposition, rfl⟩⟩
    · rintro ⟨entries, rfl, rfl, -, htakes⟩
      exact ⟨(List.append_nil _).symm, (takes_nil.mp htakes).2.symm⟩
  | succ remaining ih =>
    simp only [readMetadata]
    constructor
    · intro h
      split at h
      · cases h
      next key afterKey hkey =>
        split at h
        · cases h
        next value afterValue hvalue =>
          obtain ⟨hkeyLength, hkeyTakes⟩ := readField_iff.mp hkey
          obtain ⟨hvalueLength, hvalueTakes⟩ := readField_iff.mp hvalue
          obtain ⟨entries, rfl, hlength, hsized, htakes⟩ := (ih hvalueTakes.next_le).mp h
          refine ⟨(key, value) :: entries, ?_, ?_, ?_, ?_⟩
          · rw [List.reverse_cons, List.append_assoc, List.singleton_append]
          · rw [List.length_cons, hlength]
          · exact List.forall_mem_cons.mpr ⟨⟨hkeyLength, hvalueLength⟩, hsized⟩
          · rw [List.flatMap_cons]
            exact takes_append.mpr
              ⟨_, takes_append.mpr ⟨_, hkeyTakes, hvalueTakes⟩, htakes⟩
    · rintro ⟨entries, rfl, hlength, hsized, htakes⟩
      match entries, hlength with
      | (key, value) :: entries, hlength =>
        obtain ⟨⟨hkeyLength, hvalueLength⟩, hsized⟩ := List.forall_mem_cons.mp hsized
        rw [List.flatMap_cons] at htakes
        obtain ⟨_, hentry, htakes⟩ := takes_append.mp htakes
        obtain ⟨_, hkeyTakes, hvalueTakes⟩ := takes_append.mp hentry
        rw [readField_iff.mpr ⟨hkeyLength, hkeyTakes⟩]
        dsimp only
        rw [readField_iff.mpr ⟨hvalueLength, hvalueTakes⟩]
        refine (ih hvalueTakes.next_le).mpr ⟨entries, ?_, Nat.succ.inj hlength, hsized, htakes⟩
        rw [List.reverse_cons, List.append_assoc, List.singleton_append]

end Readers

/-- The envelope is read back, and nothing but an envelope is accepted. -/
theorem deserializePayload_iff {data : Bytes} {payload : Protocol.Payload} :
    deserializePayload data = .ok payload ↔ Framed payload ∧ data = serializePayload payload := by
  unfold deserializePayload
  constructor
  · intro h
    split at h
    · cases h
    next count afterCount hcount =>
      split_ifs at h with hnegative
      obtain ⟨n, rfl⟩ := Int.eq_ofNat_of_zero_le (a := count) (by omega)
      obtain ⟨hn, hcountTakes⟩ := readU32_iff.mp hcount
      rw [Int.toNat_natCast] at h
      split at h
      · cases h
      next metadata afterMetadata hmetadata =>
        obtain ⟨entries, rfl, rfl, hsized, hentries⟩ :=
          (readMetadata_iff hcountTakes.next_le).mp hmetadata
        split at h
        · cases h
        next size afterSize hsize =>
          split_ifs at h with hbad
          obtain ⟨m, rfl⟩ := Int.eq_ofNat_of_zero_le (a := size) (by omega)
          obtain ⟨hm, hsizeTakes⟩ := readU32_iff.mp hsize
          obtain rfl := Except.ok.inj h
          have hend : afterSize + m = data.length := by omega
          have hlength : (slice data afterSize m).length = m := length_slice (by omega)
          rw [Int.toNat_natCast]
          refine ⟨⟨hn, hsized, hlength.trans_lt hm⟩, takes_all.mp ?_⟩
          refine takes_append.mpr ⟨_, takes_append.mpr ⟨_, hcountTakes, hentries⟩, ?_⟩
          refine takes_append.mpr ⟨afterSize, ?_, ?_⟩
          · rw [hlength]
            exact hsizeTakes
          · rw [← hend]
            exact (takes_iff_slice (by omega)).mpr rfl
  · rintro ⟨⟨hcount, hfields, hdata⟩, hserialized⟩
    obtain ⟨afterMetadata, hfirst, hlast⟩ := takes_append.mp (takes_all.mpr hserialized)
    obtain ⟨afterCount, hcountTakes, hentries⟩ := takes_append.mp hfirst
    obtain ⟨afterSize, hsizeTakes, hdataTakes⟩ := takes_append.mp hlast
    have hend := hdataTakes.next_eq
    rw [readU32_iff.mpr ⟨hcount, hcountTakes⟩]
    dsimp only
    rw [if_neg (by omega), Int.toNat_natCast,
      (readMetadata_iff hcountTakes.next_le).mpr ⟨_, rfl, rfl, hfields, hentries⟩]
    dsimp only
    rw [readU32_iff.mpr ⟨hdata, hsizeTakes⟩]
    dsimp only
    rw [if_neg (by omega), Int.toNat_natCast]
    rw [hend] at hdataTakes
    rw [(takes_iff_slice (by omega)).mp hdataTakes, List.reverse_nil, List.nil_append]

theorem length_addEntry (entry : Bytes × Bytes) :
    (addEntry entry).length = 8 + entry.1.length + entry.2.length := by
  simp only [addEntry, addField, List.length_append, length_be32]
  omega

/-- An envelope that is itself short enough holds a payload that fits into it. -/
theorem framed_of_length {payload : Protocol.Payload}
    (h : (serializePayload payload).length < 2 ^ 31) : Framed payload := by
  simp only [serializePayload, List.length_append, length_be32, List.length_flatMap] at h
  have hcount : payload.metadata.length ≤
      (payload.metadata.map fun entry => (addEntry entry).length).sum := by
    rw [← List.length_map (f := fun entry => (addEntry entry).length)]
    refine List.length_le_sum_of_one_le _ fun n hn => ?_
    obtain ⟨entry, -, rfl⟩ := List.mem_map.mp hn
    rw [length_addEntry]
    omega
  refine ⟨by omega, fun entry hentry => ?_, by omega⟩
  have hle := List.le_sum_of_mem
    (List.mem_map_of_mem (f := fun entry => (addEntry entry).length) hentry)
  rw [length_addEntry] at hle
  exact ⟨by omega, by omega⟩

/-! ## Optional values -/

variable {α : Type}

/-- The codec's own decoder inverts its encoder. -/
def Inverts (codec : Codec α) : Prop :=
  ∀ value payload, codec.encode value = .ok payload → codec.decode payload = .ok value

/-- The encoding is one that makes `option` put an envelope around the payload. -/
def Wrapped (payload : Protocol.Payload) : Prop :=
  ∃ encoding, encodingMetadata payload.metadata = .ok encoding ∧ collides encoding = true

theorem encodingMetadata_single (encoding : Bytes) :
    encodingMetadata [(text "encoding", encoding)] = .ok (some encoding) := by
  simp only [encodingMetadata, encodingMetadataLoop, List.not_mem_nil, if_false, if_true]

theorem optionalWrapper_ne_null : some optionalWrapperEncoding ≠ some nullEncoding := by
  decide

theorem collides_iff {encoding : Option Bytes} :
    collides encoding = true ↔
      encoding = some nullEncoding ∨ encoding = some optionalWrapperEncoding := by
  cases encoding with
  | none => simp [collides]
  | some name => simp [collides]

theorem wrap_cases {inner payload : Protocol.Payload} (h : wrap inner = .ok payload) :
    (Wrapped inner ∧
      payload = ⟨[(text "encoding", optionalWrapperEncoding)], serializePayload inner⟩) ∨
    (payload = inner ∧ ∃ encoding, encodingMetadata inner.metadata = .ok encoding ∧
      encoding ≠ some nullEncoding ∧ encoding ≠ some optionalWrapperEncoding) := by
  obtain ⟨encoding, hencoding, h⟩ := bind_ok.mp h
  split_ifs at h with hcollides
  · exact .inl ⟨⟨encoding, hencoding, hcollides⟩, (Except.ok.inj h).symm⟩
  · rw [collides_iff, not_or] at hcollides
    exact .inr ⟨(Except.ok.inj h).symm, encoding, hencoding, hcollides⟩

theorem encode_some {codec : Codec α} {value : α} {payload : Protocol.Payload}
    (h : (option codec).encode (some value) = .ok payload) :
    ∃ inner, codec.encode value = .ok inner ∧ wrap inner = .ok payload := bind_ok.mp h

theorem decode_eq (codec : Codec α) {payload : Protocol.Payload} {encoding : Option Bytes}
    (h : encodingMetadata payload.metadata = .ok encoding) :
    (option codec).decode payload =
      if encoding = some nullEncoding then
        if payload.data.length = 0 then .ok none
        else .error (.codec "null payload must be empty")
      else if encoding = some optionalWrapperEncoding then
        deserializePayload payload.data >>= fun inner => (codec.decode inner).map some
      else (codec.decode payload).map some := by
  rw [decode, option]
  dsimp only
  rw [h]
  rfl

theorem decode_null (codec : Codec α) :
    (option codec).decode ⟨[(text "encoding", nullEncoding)], []⟩ = .ok none := by
  rw [decode_eq codec (encodingMetadata_single _), if_pos rfl]
  rfl

/-- The decoder finds the payload of the value, whether it was wrapped or not. -/
theorem decode_of_wrap {codec : Codec α} {inner payload : Protocol.Payload}
    (h : wrap inner = .ok payload) (hframed : Wrapped inner → Framed inner) :
    (option codec).decode payload = (codec.decode inner).map some := by
  obtain ⟨hwrapped, rfl⟩ | ⟨rfl, encoding, hencoding, hnull, hwrapper⟩ := wrap_cases h
  · have hread : deserializePayload (serializePayload inner) = .ok inner :=
      deserializePayload_iff.mpr ⟨hframed hwrapped, rfl⟩
    rw [decode_eq codec (encodingMetadata_single _), if_neg optionalWrapper_ne_null, if_pos rfl,
      hread]
    rfl
  · rw [decode_eq codec hencoding, if_neg hnull, if_neg hwrapper]

theorem option_inverts {codec : Codec α} {value : Option α} {payload : Protocol.Payload}
    (hencode : (option codec).encode value = .ok payload)
    (hinverts : ∀ v inner, value = some v → codec.encode v = .ok inner →
      codec.decode inner = .ok v ∧ (Wrapped inner → Framed inner)) :
    (option codec).decode payload = .ok value := by
  cases value with
  | none =>
    obtain rfl := Except.ok.inj hencode
    exact decode_null codec
  | some v =>
    obtain ⟨inner, hinner, hwrap⟩ := encode_some hencode
    obtain ⟨hdecode, hframed⟩ := hinverts v inner rfl hinner
    rw [decode_of_wrap hwrap hframed, hdecode]
    rfl

/-! ## Nested options -/

/-- Optional values of optional values, so many times. -/
def Nested (α : Type) : Nat → Type
  | 0 => α
  | depth + 1 => Option (Nested α depth)

/-- The option codec applied so many times. -/
def nested (codec : Codec α) : (depth : Nat) → Codec (Nested α depth)
  | 0 => codec
  | depth + 1 => option (nested codec depth)

/-- Every payload that the encoder puts into an envelope fits into it. -/
def Fits (codec : Codec α) : (depth : Nat) → Nested α depth → Prop
  | 0, _ => True
  | depth + 1, value =>
    match (value : Option (Nested α depth)) with
    | none => True
    | some value =>
      Fits codec depth value ∧
        ∀ inner, (nested codec depth).encode value = .ok inner → Wrapped inner → Framed inner

theorem nested_inverts {codec : Codec α} (hcodec : codec.Inverts) (depth : Nat) :
    ∀ value payload, (nested codec depth).encode value = .ok payload → Fits codec depth value →
      (nested codec depth).decode payload = .ok value := by
  induction depth with
  | zero => exact fun value payload hencode _ => hcodec value payload hencode
  | succ depth ih =>
    intro value payload hencode hfits
    refine option_inverts hencode fun v inner hv hinner => ?_
    subst hv
    exact ⟨ih v inner hinner hfits.1, hfits.2 inner hinner⟩

/-- If the payload that is sent fits, so does everything that it holds. -/
theorem fits_of_framed {codec : Codec α} (depth : Nat) :
    ∀ value payload, (nested codec depth).encode value = .ok payload → Framed payload →
      Fits codec depth value := by
  induction depth with
  | zero => exact fun _ _ _ _ => trivial
  | succ depth ih =>
    intro value payload hencode hframed
    match (value : Option (Nested α depth)) with
    | none => trivial
    | some v =>
      obtain ⟨inner, hinner, hwrap⟩ := encode_some hencode
      have hinnerFramed : Framed inner := by
        obtain ⟨-, rfl⟩ | ⟨rfl, -⟩ := wrap_cases hwrap
        · exact framed_of_length hframed.data
        · exact hframed
      refine ⟨ih v inner hinner hinnerFramed, fun inner' hinner' _ => ?_⟩
      obtain rfl := Except.ok.inj (hinner.symm.trans hinner')
      exact hinnerFramed

/-- What the option codec does at one depth of nesting. -/
structure OptionOk (codec : Codec α) (depth : Nat) : Prop where
  inverts : ∀ value payload, (nested codec depth).encode value = .ok payload →
    Fits codec depth value → (nested codec depth).decode payload = .ok value
  -- different values have different encodings
  injective : ∀ value value' payload, (nested codec depth).encode value = .ok payload →
    (nested codec depth).encode value' = .ok payload →
    Fits codec depth value → Fits codec depth value' → value = value'
  -- it is enough that the payload that is sent fits
  framed : ∀ value payload, (nested codec depth).encode value = .ok payload → Framed payload →
    Fits codec depth value

/-- **Optional values come back from their payloads**, nested to any depth, as long as what goes
into an envelope fits its 31-bit lengths; different values have different payloads. The envelope
itself is read exactly when it was written: the reader accepts no other bytes. -/
theorem option_ok :
    (∀ (α : Type) (codec : Codec α), codec.Inverts → ∀ depth, OptionOk codec depth) ∧
    (∀ payload, Framed payload → deserializePayload (serializePayload payload) = .ok payload) ∧
    (∀ data payload, deserializePayload data = .ok payload ↔
      Framed payload ∧ data = serializePayload payload) := by
  refine ⟨fun α codec hcodec depth => ?_, ?_, fun _ _ => deserializePayload_iff⟩
  · have hinverts := nested_inverts hcodec depth
    refine ⟨hinverts, ?_, fits_of_framed depth⟩
    intro value value' payload hvalue hvalue' hfits hfits'
    have hdecode := hinverts value payload hvalue hfits
    rw [hinverts value' payload hvalue' hfits'] at hdecode
    exact (Except.ok.inj hdecode).symm
  · exact fun payload hframed => deserializePayload_iff.mpr ⟨hframed, rfl⟩

/-- A codec with one encoding name inverts itself if its byte functions do. -/
theorem make_inverts {encoding : Bytes} {encode : α → Except Error Bytes}
    {decode : Bytes → Except Error α} {codec : Codec α}
    (hmake : make encoding encode decode = .ok codec)
    (hbytes : ∀ value data, encode value = .ok data → decode data = .ok value) :
    codec.Inverts := by
  unfold make at hmake
  split_ifs at hmake
  obtain rfl := Except.ok.inj hmake
  intro value payload hencode
  rw [Codec.encode] at hencode
  dsimp only at hencode
  cases hdata : encode value with
  | error e =>
    rw [hdata] at hencode
    cases hencode
  | ok data =>
    rw [hdata] at hencode
    obtain rfl := Except.ok.inj hencode
    rw [Codec.decode]
    dsimp only
    rw [encodingMetadata_single]
    exact (if_pos rfl).trans (hbytes value data hdata)

theorem unit_inverts {codec : Codec Unit} (h : unit = .ok codec) : codec.Inverts := by
  refine make_inverts h fun _ data hdata => ?_
  obtain rfl := Except.ok.inj hdata
  rfl

/-- Over the unit codec, whose only payload is the one of `none`, an envelope tells
`some (some ())` from `some none`. -/
theorem option_ok_unit :
    ∃ codec, unit = .ok codec ∧ codec.Inverts ∧
      (∃ payload, (nested codec 2).encode (some (some ())) = .ok payload ∧ Framed payload ∧
        (nested codec 2).decode payload = .ok (some (some ()))) ∧
      (∃ payload, (nested codec 2).encode (some none) = .ok payload ∧ Framed payload ∧
        (nested codec 2).decode payload = .ok (some none)) := by
  obtain ⟨codec, hcodec⟩ : ∃ codec, unit = .ok codec := ⟨_, rfl⟩
  have hinverts := unit_inverts hcodec
  have hok := option_ok.1 Unit codec hinverts 2
  have hround : ∀ value payload, (nested codec 2).encode value = .ok payload → Framed payload →
      (nested codec 2).decode payload = .ok value := by
    intro value payload hencode hframed
    exact hok.inverts value payload hencode (hok.framed value payload hencode hframed)
  obtain rfl := Except.ok.inj hcodec
  refine ⟨_, rfl, hinverts, ⟨_, rfl, ?_⟩, ⟨_, rfl, ?_⟩⟩
  · exact ⟨by decide, hround _ _ rfl (by decide)⟩
  · exact ⟨by decide, hround _ _ rfl (by decide)⟩

end OcamlTemporal.Base.Codec
