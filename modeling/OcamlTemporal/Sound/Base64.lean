import Mathlib.Data.Nat.Bitwise
import OcamlTemporal.Protocol.Base64

/-!
# OcamlTemporal.Sound.Base64

The loops of the payload codec make no access outside of their buffers and compute padded base64.
`base64Encode_eq` and `base64Decode_eq` say that they return what `Control.base64Encode` and
`Control.base64Decode` say; what is claimed of them is then a fact about the codec.

* Encoding: after `g` rounds the buffer holds the text of the first `3 * g` bytes and padding.
* Decoding: `decodeGroups_eq` runs from any group on, over a buffer whose first part is written.
-/

namespace OcamlTemporal.Protocol.Base64

open Lib.Buffer Control

/-! ## Bits -/

theorem symbol_eq (index : Nat) : symbol index = .ok (Lib.Base64.symbol (index % 64)) := by
  have hall : ∀ i : Fin 64, base64Alphabet[i.val]? = some (Lib.Base64.symbol i.val) := by
    decide +kernel
  rw [symbol, show index &&& 63 = index % 64 from Nat.and_two_pow_sub_one_eq_mod index 6]
  exact uncheckedGet_ok (hall ⟨index % 64, Nat.mod_lt _ (by decide)⟩)

theorem shiftLeft_or {a b k : Nat} (h : b < 2 ^ k) : a <<< k ||| b = a * 2 ^ k + b := by
  rw [← Nat.shiftLeft_add_eq_or_of_lt h, Nat.shiftLeft_eq]

def tableValue (b : UInt8) : Nat := (Lib.Base64.value b).getD 255

theorem base64DecodeTable_get (b : UInt8) :
    base64DecodeTable[b.toNat]? = some (UInt8.ofNat (tableValue b)) := by
  have htable : base64DecodeTable = (List.range 256).map fun i =>
      UInt8.ofNat (tableValue (.ofNat i)) := by decide +kernel
  rw [htable, List.getElem?_map, List.getElem?_range b.toNat_lt, Option.map_some,
    UInt8.ofNat_toNat]

theorem tableValue_cases (b : UInt8) :
    (∃ n, Lib.Base64.value b = some n ∧ n < 64 ∧ tableValue b = n) ∨
      Lib.Base64.value b = none ∧ tableValue b = 255 := by
  rw [tableValue]
  cases h : Lib.Base64.value b with
  | none => exact .inr ⟨rfl, rfl⟩
  | some n => exact .inl ⟨n, rfl, (Lib.Base64.symbol_value h).1, rfl⟩

theorem tableValue_lt (b : UInt8) : tableValue b < 256 := by
  rcases tableValue_cases b with ⟨n, -, hn, heq⟩ | ⟨-, heq⟩
  · omega
  · omega

theorem high_bit (b : UInt8) : tableValue b &&& 128 = 0 ↔ (Lib.Base64.value b).isSome = true := by
  have hlow : ∀ n : Fin 64, n.val &&& 128 = 0 := by decide
  rcases tableValue_cases b with ⟨n, hvalue, hn, heq⟩ | ⟨hvalue, heq⟩
  · simp [heq, hvalue, hlow ⟨n, hn⟩]
  · simp [heq, hvalue]

variable {x y i g : Nat} {data bytes full : Bytes} {b : UInt8}

theorem or_high : (x ||| y) &&& 128 = 0 ↔ x &&& 128 = 0 ∧ y &&& 128 = 0 := by
  rw [Nat.and_or_distrib_right, Nat.or_eq_zero_iff]

theorem symbolValue_eq (h : data[i]? = some b) : symbolValue data i = .ok (tableValue b) := by
  rw [symbolValue, uncheckedGet_ok h]
  show (do let value ← uncheckedGet base64DecodeTable b.toNat; return value.toNat) = _
  rw [uncheckedGet_ok (base64DecodeTable_get b)]
  exact congrArg Except.ok (UInt8.toNat_ofNat_of_lt (tableValue_lt b))

theorem value_eq (h : data[i]? = some b) : value data i = .ok (tableValue b) := by
  rw [value, get_ok h]
  show (do let value ← get base64DecodeTable b.toNat; return value.toNat) = _
  rw [get_ok (base64DecodeTable_get b)]
  exact congrArg Except.ok (UInt8.toNat_ofNat_of_lt (tableValue_lt b))

/-! ## Encoding -/

theorem group_symbols (a b c : UInt8) :
    (a.toNat >>> 2) % 64 = a.toNat / 4 ∧
      (a.toNat <<< 4 ||| b.toNat >>> 4) % 64 = a.toNat % 4 * 16 + b.toNat / 16 ∧
      (b.toNat <<< 2 ||| c.toNat >>> 6) % 64 = b.toNat % 16 * 4 + c.toNat / 64 ∧
      (a.toNat <<< 4) % 64 = a.toNat % 4 * 16 ∧ (b.toNat <<< 2) % 64 = b.toNat % 16 * 4 := by
  have ha := a.toNat_lt
  have hb := b.toNat_lt
  have hc := c.toNat_lt
  have hb4 : b.toNat >>> 4 = b.toNat / 16 := Nat.shiftRight_eq_div_pow _ 4
  have hc6 : c.toNat >>> 6 = c.toNat / 64 := Nat.shiftRight_eq_div_pow _ 6
  have ha2 : a.toNat >>> 2 = a.toNat / 4 := Nat.shiftRight_eq_div_pow _ 2
  rw [hb4, hc6, ha2, shiftLeft_or (k := 4) (by omega), shiftLeft_or (k := 2) (by omega),
    Nat.shiftLeft_eq, Nat.shiftLeft_eq]
  omega

theorem drop_three (h : g < bytes.length / 3) :
    ∃ a b c rest, bytes.drop (g * 3) = a :: b :: c :: rest := by
  have hlength : 3 ≤ (bytes.drop (g * 3)).length := by
    rw [List.length_drop]
    omega
  match hdrop : bytes.drop (g * 3), hlength with
  | a :: b :: c :: rest, _ => exact ⟨a, b, c, rest, rfl⟩

/-- The buffer after some rounds. -/
def filled (bytes : Bytes) (groups : Nat) : Bytes :=
  Lib.Base64.encode (bytes.take (groups * 3)) ++
    List.replicate ((bytes.length + 2) / 3 * 4 - groups * 4) 61

theorem length_encode_take (h : g ≤ bytes.length / 3) :
    (Lib.Base64.encode (bytes.take (g * 3))).length = g * 4 := by
  rw [Lib.Base64.length_encode, List.length_take]
  omega

theorem encodeGroup_eq (h : g < bytes.length / 3) :
    encodeGroup bytes (filled bytes g) g = .ok (filled bytes (g + 1)) := by
  obtain ⟨a, b, c, rest, hdrop⟩ := drop_three h
  have hget : ∀ k, bytes[g * 3 + k]? = (a :: b :: c :: rest)[k]? := fun k => by
    rw [← hdrop, List.getElem?_drop]
  have htake : bytes.take ((g + 1) * 3) = bytes.take (g * 3) ++ [a, b, c] := by
    rw [Nat.succ_mul, List.take_add, hdrop]
    rfl
  have hpadding : (bytes.length + 2) / 3 * 4 - g * 4 =
      (bytes.length + 2) / 3 * 4 - (g + 1) * 4 + 4 := by omega
  obtain ⟨h₀, h₁, h₂, -, -⟩ := group_symbols a b c
  have hwhole : (bytes.take (g * 3)).length % 3 = 0 := by
    rw [List.length_take]
    omega
  have hfirst := uncheckedGet_ok (show bytes[g * 3]? = some a from hget 0)
  have hsecond := uncheckedGet_ok (show bytes[g * 3 + 1]? = some b from hget 1)
  have hthird := uncheckedGet_ok (show bytes[g * 3 + 2]? = some c from hget 2)
  have hdone := length_encode_take (Nat.le_of_lt h)
  simp only [encodeGroup, hfirst, hsecond, hthird, symbol_eq, h₀, h₁, h₂, ok_bind]
  rw [filled, filled, hpadding, htake, Lib.Base64.encode_append hwhole, List.append_assoc]
  generalize Lib.Base64.encode (bytes.take (g * 3)) = done at hdone ⊢
  -- The four writes, one behind the other.
  rw [uncheckedSet_behind (k := 0) hdone.symm (by simp), ok_bind,
    uncheckedSet_behind (k := 1) (by rw [hdone]) (by simp), ok_bind,
    uncheckedSet_behind (k := 2) (by rw [hdone]) (by simp), ok_bind,
    uncheckedSet_behind (k := 3) (by rw [hdone]) (by simp)]
  rfl

theorem encodeTail_eq (bytes : Bytes) :
    encodeTail bytes (filled bytes (bytes.length / 3)) (bytes.length / 3) =
      .ok (Lib.Base64.encode bytes) := by
  have hlength : (Lib.Base64.encode (bytes.take (bytes.length / 3 * 3))).length =
      bytes.length / 3 * 4 := length_encode_take (Nat.le_refl _)
  have hwhole : (bytes.take (bytes.length / 3 * 3)).length % 3 = 0 := by
    rw [List.length_take]
    omega
  have hget : ∀ k, bytes[bytes.length / 3 * 3 + k]? =
      (bytes.drop (bytes.length / 3 * 3))[k]? := fun k => (List.getElem?_drop ..).symm
  have hsplit := Lib.Base64.encode_append hwhole (bytes.drop (bytes.length / 3 * 3))
  rw [List.take_append_drop] at hsplit
  have hrest : (bytes.drop (bytes.length / 3 * 3)).length = bytes.length - bytes.length / 3 * 3 :=
    List.length_drop
  rw [hsplit, filled, encodeTail, ← hrest]
  generalize Lib.Base64.encode (bytes.take (bytes.length / 3 * 3)) = done at hlength ⊢
  match htail : bytes.drop (bytes.length / 3 * 3) with
  | [] =>
    rw [htail, List.length_nil] at hrest
    have hnone : (bytes.length + 2) / 3 * 4 - bytes.length / 3 * 4 = 0 := by omega
    simp only [List.length_nil, hnone, List.replicate_zero]
    rfl
  | [a] =>
    rw [htail, List.length_singleton] at hrest
    have hfour : (bytes.length + 2) / 3 * 4 - bytes.length / 3 * 4 = 4 := by omega
    have hfirst : get bytes (bytes.length / 3 * 3) = .ok a :=
      get_ok ((hget 0).trans (congrArg (·[0]?) htail))
    obtain ⟨h₀, -, -, h₁, -⟩ := group_symbols a 0 0
    simp only [List.length_singleton, hfour, hfirst, symbol_eq, h₀, h₁, ok_bind]
    rw [set_behind (k := 0) hlength.symm (by simp), ok_bind,
      set_behind (k := 1) (by rw [hlength]) (by simp)]
    rfl
  | [a, b] =>
    rw [htail] at hrest
    have hfour : (bytes.length + 2) / 3 * 4 - bytes.length / 3 * 4 = 4 := by
      simp only [List.length_cons, List.length_nil] at hrest
      omega
    have hfirst : get bytes (bytes.length / 3 * 3) = .ok a :=
      get_ok ((hget 0).trans (congrArg (·[0]?) htail))
    have hsecond : get bytes (bytes.length / 3 * 3 + 1) = .ok b :=
      get_ok ((hget 1).trans (congrArg (·[1]?) htail))
    obtain ⟨h₀, h₁, -, -, h₂⟩ := group_symbols a b 0
    simp only [List.length_cons, List.length_nil, hfour, hfirst, hsecond, symbol_eq, h₀, h₁, h₂,
      ok_bind]
    rw [set_behind (k := 0) hlength.symm (by simp), ok_bind,
      set_behind (k := 1) (by rw [hlength]) (by simp), ok_bind,
      set_behind (k := 2) (by rw [hlength]) (by simp)]
    rfl
  | a :: b :: c :: rest =>
    rw [htail] at hrest
    simp only [List.length_cons] at hrest
    omega

theorem base64Encode_eq (bytes : Bytes) : base64Encode bytes = .ok (Lib.Base64.encode bytes) := by
  have hloop := forRange_ok (filled bytes) fun g hg =>
    show encodeGroup bytes (filled bytes g) g = _ from encodeGroup_eq hg
  have hempty : filled bytes 0 = List.replicate ((bytes.length + 2) / 3 * 4) 61 := by
    rw [filled, Nat.zero_mul, List.take_zero]
    rfl
  rw [hempty] at hloop
  rw [base64Encode, hloop]
  exact encodeTail_eq bytes

/-! ## Decoding -/

theorem bits_eq {w z : Nat} (hx : x < 64) (hy : y < 64) (hz : z < 64) :
    w <<< 18 ||| x <<< 12 ||| y <<< 6 ||| z = w * 262144 + x * 4096 + y * 64 + z := by
  have h₁ : w <<< 18 ||| x <<< 12 = (w * 64 + x) <<< 12 := by
    rw [shiftLeft_or (by rw [Nat.shiftLeft_eq]; omega), Nat.shiftLeft_eq, Nat.shiftLeft_eq]
    omega
  have h₂ : (w * 64 + x) <<< 12 ||| y <<< 6 = (w * 4096 + x * 64 + y) <<< 6 := by
    rw [shiftLeft_or (by rw [Nat.shiftLeft_eq]; omega), Nat.shiftLeft_eq, Nat.shiftLeft_eq]
    omega
  rw [h₁, h₂, shiftLeft_or (by omega)]
  omega

/-- The bytes of four symbols as the library computes them. -/
theorem group_bytes {w z : Nat} (hw : w < 64) (hx : x < 64) (hy : y < 64) (hz : z < 64) :
    uncheckedByte ((w <<< 18 ||| x <<< 12 ||| y <<< 6 ||| z) >>> 16) =
      .ok (.ofNat (w * 4 + x / 16)) ∧
      uncheckedByte ((w <<< 18 ||| x <<< 12 ||| y <<< 6 ||| z) >>> 8 &&& 0xff) =
        .ok (.ofNat (x % 16 * 16 + y / 4)) ∧
      uncheckedByte ((w <<< 18 ||| x <<< 12 ||| y <<< 6 ||| z) &&& 0xff) =
        .ok (.ofNat (y % 4 * 64 + z)) := by
  have hand : ∀ n : Nat, n &&& 0xff = n % 256 := fun n => Nat.and_two_pow_sub_one_eq_mod n 8
  rw [bits_eq hx hy hz, hand, hand, Nat.shiftRight_eq_div_pow, Nat.shiftRight_eq_div_pow]
  have h₁ : (w * 262144 + x * 4096 + y * 64 + z) / 2 ^ 16 = w * 4 + x / 16 := by omega
  have h₂ : (w * 262144 + x * 4096 + y * 64 + z) / 2 ^ 8 % 256 = x % 16 * 16 + y / 4 := by omega
  have h₃ : (w * 262144 + x * 4096 + y * 64 + z) % 256 = y % 4 * 64 + z := by omega
  rw [h₁, h₂, h₃]
  exact ⟨uncheckedByte_ok (by omega), uncheckedByte_ok (by omega), uncheckedByte_ok (by omega)⟩

theorem exists_three (h : 3 ≤ bytes.length) : ∃ x y z rest, bytes = x :: y :: z :: rest := by
  rcases bytes with _ | ⟨x, _ | ⟨y, _ | ⟨z, rest⟩⟩⟩
  · simp at h
  · simp at h
  · simp at h
  · exact ⟨x, y, z, rest, rfl⟩

theorem exists_four (h : 4 ≤ bytes.length) : ∃ w x y z rest, bytes = w :: x :: y :: z :: rest := by
  obtain ⟨w, x, y, rest, rfl⟩ := exists_three (Nat.le_trans (by decide) h)
  cases rest with
  | nil => simp at h
  | cons z rest => exact ⟨w, x, y, z, rest, rfl⟩

theorem decodeGroups_eq (data : Bytes) (left : Nat) :
    ∀ (group : Nat) (done rest : Bytes), (group + left) * 4 ≤ data.length →
      group * 3 = done.length → left * 3 ≤ rest.length →
      decodeGroups data left group (done ++ rest) =
        .ok ((Lib.Base64.decodeFull ((data.drop (group * 4)).take (left * 4))).map fun bytes =>
          done ++ bytes ++ rest.drop (left * 3)) := by
  induction left with
  | zero =>
    intro group done rest hdata hdone hrest
    simp [decodeGroups, Lib.Base64.decodeFull]
  | succ left ih =>
    intro group done rest hdata hdone hrest
    obtain ⟨w, x, y, z, tail, hdrop⟩ : ∃ w x y z tail, data.drop (group * 4) =
        w :: x :: y :: z :: tail := by
      have hlength : 4 ≤ (data.drop (group * 4)).length := by
        rw [List.length_drop]
        omega
      exact exists_four hlength
    obtain ⟨r₀, r₁, r₂, rest, rfl⟩ : ∃ r₀ r₁ r₂ rest', rest = r₀ :: r₁ :: r₂ :: rest' := by
      exact exists_three (by omega)
    have htail : data.drop ((group + 1) * 4) = tail := by
      rw [Nat.succ_mul, ← List.drop_drop, hdrop]
      rfl
    have hget : ∀ k, data[group * 4 + k]? = (w :: x :: y :: z :: tail)[k]? := fun k => by
      rw [← hdrop, List.getElem?_drop]
    have hw := symbolValue_eq (show data[group * 4]? = some w from hget 0)
    have hx := symbolValue_eq (show data[group * 4 + 1]? = some x from hget 1)
    have hy := symbolValue_eq (show data[group * 4 + 2]? = some y from hget 2)
    have hz := symbolValue_eq (show data[group * 4 + 3]? = some z from hget 3)
    have htake : (w :: x :: y :: z :: tail).take ((left + 1) * 4) =
        w :: x :: y :: z :: tail.take (left * 4) := by
      rw [Nat.succ_mul]
      rfl
    simp only [decodeGroups, hw, hx, hy, hz, ok_bind]
    rw [hdrop, htake, Lib.Base64.decodeFull]
    simp only [ne_eq, or_high, high_bit]
    rcases hw' : Lib.Base64.value w with _ | w'
    · rfl
    rcases hx' : Lib.Base64.value x with _ | x'
    · rfl
    rcases hy' : Lib.Base64.value y with _ | y'
    · rfl
    rcases hz' : Lib.Base64.value z with _ | z'
    · rfl
    obtain ⟨hb₀, hb₁, hb₂⟩ := group_bytes (Lib.Base64.symbol_value hw').1
      (Lib.Base64.symbol_value hx').1 (Lib.Base64.symbol_value hy').1
        (Lib.Base64.symbol_value hz').1
    have hnext := ih (group + 1) (done ++ [UInt8.ofNat (w' * 4 + x' / 16),
      UInt8.ofNat (x' % 16 * 16 + y' / 4), UInt8.ofNat (y' % 4 * 64 + z')]) rest (by omega)
      (by simp only [List.length_append, List.length_cons, List.length_nil]; omega)
      (by simp only [List.length_cons] at hrest; omega)
    rw [List.append_assoc, htail] at hnext
    rw [if_neg (by simp)]
    simp only [tableValue, hw', hx', hy', hz', Option.getD_some, hb₀, hb₁, hb₂, ok_bind]
    rw [uncheckedSet_behind (k := 0) hdone (by simp), ok_bind,
      uncheckedSet_behind (k := 1) (by rw [hdone]) (by simp), ok_bind,
      uncheckedSet_behind (k := 2) (by rw [hdone]) (by simp), ok_bind]
    refine hnext.trans ?_
    cases Lib.Base64.decodeFull (tail.take (left * 4)) with
    | none => rfl
    | some bytes =>
      rw [Nat.succ_mul]
      simp

theorem value_append (hi : i = full.length) (k : Nat) (h : data[k]? = some b) :
    value (full ++ data) (i + k) = .ok (tableValue b) := by
  refine value_eq ?_
  rw [hi, List.getElem?_append_right (Nat.le_add_right _ _), Nat.add_sub_cancel_left]
  exact h

theorem lastGroup_one (hfull : full.length % 4 = 0) (hbytes : bytes.length = full.length / 4 * 3)
    {w x y : UInt8} (hy : y ≠ 61) (r₀ r₁ : UInt8) :
    lastGroup (full ++ [w, x, y, 61]) (bytes ++ [r₀, r₁]) (full.length / 4) 1 =
      .ok ((Lib.Base64.decodeLast w x y).map (bytes ++ ·)) := by
  have hoffset : full.length / 4 * 4 = full.length := by omega
  have hw := value_append hoffset 0 (show [w, x, y, 61][0]? = some _ from rfl)
  have hx := value_append hoffset 1 (show [w, x, y, 61][1]? = some _ from rfl)
  have hy' := value_append hoffset 2 (show [w, x, y, 61][2]? = some _ from rfl)
  have hand : ∀ n : Nat, n &&& 3 = n % 4 := fun n => Nat.and_two_pow_sub_one_eq_mod n 2
  rw [Nat.add_zero] at hw
  simp only [lastGroup, hw, hx, hy', ok_bind, Lib.Base64.decodeLast, if_neg hy, ne_eq, or_high,
    high_bit, hand]
  rcases hw' : Lib.Base64.value w with _ | w'
  · rfl
  rcases hx' : Lib.Base64.value x with _ | x'
  · rfl
  rcases hy'' : Lib.Base64.value y with _ | y'
  · rfl
  obtain ⟨hb₀, hb₁, -⟩ :=
    group_bytes (Lib.Base64.symbol_value hw').1 (Lib.Base64.symbol_value hx').1
    (Lib.Base64.symbol_value hy'').1 (show 0 < 64 by decide)
  rw [Nat.or_zero] at hb₀ hb₁
  simp only [tableValue, hw', hx', hy'', Option.getD_some]
  by_cases hunused : y' % 4 = 0
  · rw [if_neg (by simp [hunused])]
    simp only [store, hb₀, hb₁, ok_bind, if_pos (show 1 < 2 by decide)]
    rw [set_behind (k := 0) hbytes.symm (by simp), ok_bind,
      set_behind (k := 1) (by rw [hbytes]) (by simp)]
    simp [hunused]
  · rw [if_pos (.inr hunused)]
    simp [hunused]
    rfl

theorem lastGroup_two (hfull : full.length % 4 = 0) (hbytes : bytes.length = full.length / 4 * 3)
    (w x r₀ : UInt8) :
    lastGroup (full ++ [w, x, 61, 61]) (bytes ++ [r₀]) (full.length / 4) 2 =
      .ok ((Lib.Base64.decodeLast w x 61).map (bytes ++ ·)) := by
  have hoffset : full.length / 4 * 4 = full.length := by omega
  have hw := value_append hoffset 0 (show [w, x, 61, 61][0]? = some _ from rfl)
  have hx := value_append hoffset 1 (show [w, x, 61, 61][1]? = some _ from rfl)
  have hand : ∀ n : Nat, n &&& 15 = n % 16 := fun n => Nat.and_two_pow_sub_one_eq_mod n 4
  rw [Nat.add_zero] at hw
  simp only [lastGroup, hw, hx, ok_bind, Lib.Base64.decodeLast, if_true, ne_eq, or_high, high_bit,
    hand]
  rcases hw' : Lib.Base64.value w with _ | w'
  · rfl
  rcases hx' : Lib.Base64.value x with _ | x'
  · rfl
  obtain ⟨hb₀, -, -⟩ := group_bytes (Lib.Base64.symbol_value hw').1 (Lib.Base64.symbol_value hx').1
    (show 0 < 64 by decide) (show 0 < 64 by decide)
  rw [Nat.or_zero] at hb₀
  simp only [tableValue, hw', hx', Option.getD_some]
  by_cases hunused : x' % 16 = 0
  · rw [if_neg (by simp [hunused])]
    simp only [store, hb₀, ok_bind, if_neg (show ¬ 1 < 1 by decide)]
    rw [set_behind (k := 0) hbytes.symm (by simp)]
    simp [hunused]
    rfl
  · rw [if_pos (.inr hunused)]
    simp [hunused]
    rfl

/-- A padded last group; the buffer has room for its bytes. -/
theorem lastGroup_eq (hfull : full.length % 4 = 0) (hbytes : bytes.length = full.length / 4 * 3)
    (w x y : UInt8) {rest : Bytes} (hrest : rest.length = if y = 61 then 1 else 2) :
    lastGroup (full ++ [w, x, y, 61]) (bytes ++ rest) (full.length / 4) (if y = 61 then 2 else 1) =
      .ok ((Lib.Base64.decodeLast w x y).map (bytes ++ ·)) := by
  split_ifs at hrest ⊢ with hy
  · obtain ⟨r₀, rfl⟩ := List.length_eq_one_iff.mp hrest
    exact hy ▸ lastGroup_two hfull hbytes w x r₀
  · obtain ⟨r₀, r₁, rfl⟩ := List.length_eq_two.mp hrest
    exact lastGroup_one hfull hbytes hy r₀ r₁

theorem get_last (init : Bytes) (z : UInt8) (rest : Bytes) (hi : i = init.length) :
    get (init ++ z :: rest) i = .ok z := by
  refine get_ok ?_
  rw [hi, List.getElem?_append_right (Nat.le_refl _), Nat.sub_self]
  rfl

theorem padding_eq (data : Bytes) : padding data = .ok (base64Padding data) := by
  rw [padding, base64Padding]
  cases data using List.reverseRecOn with
  | nil => rfl
  | append_singleton init z =>
    have hlast := get_last init z [] (i := (init ++ [z]).length - 1) (by simp)
    rw [if_neg (by simp), hlast, ok_bind, List.reverse_append]
    by_cases hz : z = 61
    · rw [if_pos hz, hz]
      cases init using List.reverseRecOn with
      | nil => rfl
      | append_singleton init y =>
        have hbefore := get_last init y [61] (i := (init ++ [y] ++ [61]).length - 2) (by simp)
        rw [if_pos (by simp), List.append_assoc, List.singleton_append]
        rw [List.append_assoc, List.singleton_append] at hbefore
        rw [hbefore, ok_bind, List.reverse_append]
        by_cases hy : y = 61
        · rw [if_pos hy, hy]
          rfl
        · rw [if_neg hy]
          simp [hy]
          rfl
    · rw [if_neg hz]
      simp [hz]
      rfl

/-- The text by its padding, for a whole number of groups. -/
theorem padding_cases (h : data.length % 4 = 0) :
    base64Padding data = 0 ∧ data.getLast? ≠ some 61 ∨
      ∃ full w x y, data = full ++ [w, x, y, 61] ∧ full.length % 4 = 0 ∧
        base64Padding data = if y = 61 then 2 else 1 := by
  by_cases hempty : data = []
  · subst hempty
    exact .inl ⟨rfl, nofun⟩
  · obtain ⟨full, w, x, y, z, rfl⟩ : ∃ full w x y z, data = full ++ [w, x, y, z] := by
      have hlength : (data.drop (data.length - 4)).length = 4 := by
        have hpos := List.length_pos_iff.mpr hempty
        rw [List.length_drop]
        omega
      match hdrop : data.drop (data.length - 4), hlength with
      | [w, x, y, z], _ =>
        exact ⟨data.take (data.length - 4), w, x, y, z, by rw [← hdrop, List.take_append_drop]⟩
    have hfull : full.length % 4 = 0 := by
      simp only [List.length_append, List.length_cons, List.length_nil] at h
      omega
    by_cases hz : z = 61
    · subst hz
      refine .inr ⟨full, w, x, y, rfl, hfull, ?_⟩
      by_cases hy : y = 61 <;> simp [base64Padding, hy]
    · exact .inl ⟨by simp [base64Padding, hz], by simpa using hz⟩

theorem decodeGroups_padded (last buffer : Bytes) (hfull : full.length % 4 = 0)
    (hbuffer : full.length / 4 * 3 ≤ buffer.length) :
    decodeGroups (full ++ last) (full.length / 4) 0 buffer =
      .ok ((Lib.Base64.decodeFull full).map fun bytes =>
        bytes ++ buffer.drop (full.length / 4 * 3)) := by
  have hgroups := decodeGroups_eq (full ++ last) (full.length / 4) 0 [] buffer
    (by rw [List.length_append]; omega) rfl hbuffer
  rw [show full.length / 4 * 4 = full.length by omega, Nat.zero_mul, List.drop_zero,
    List.take_left] at hgroups
  exact hgroups

/-- The loops return what the codec does. -/
theorem base64Decode_eq (create : Allocator) (data : Bytes) :
    base64Decode create data = .ok (Control.base64Decode data) := by
  rw [base64Decode, Control.base64Decode]
  dsimp only
  by_cases hlength : data.length % 4 ≠ 0 ∨ data.length > maxPayloadBase64Bytes
  · rw [if_pos hlength, if_pos hlength]
    rfl
  · rw [if_neg hlength, if_neg hlength, padding_eq, ok_bind]
    by_cases hlimit : data.length / 4 * 3 - base64Padding data > maxPayloadBytes
    · rw [if_pos hlimit, if_pos hlimit]
      rfl
    · rw [if_neg hlimit, if_neg hlimit]
      have hwhole : data.length % 4 = 0 := by
        by_contra hne
        exact hlength (.inl hne)
      have hcreate := (create (data.length / 4 * 3 - base64Padding data)).property
      generalize (create (data.length / 4 * 3 - base64Padding data)).val = buffer at hcreate ⊢
      rcases padding_cases hwhole with ⟨hnone, hlast⟩ | ⟨full, w, x, y, rfl, hfull, hsome⟩
      · have hgroups := decodeGroups_padded [] buffer hwhole (by omega)
        rw [List.append_nil] at hgroups
        rw [hnone, if_pos rfl, hgroups, ok_bind, Lib.Base64.decode_of_full hlast]
        cases Lib.Base64.decodeFull data with
        | none => rfl
        | some bytes =>
          have hnil : buffer.drop (data.length / 4 * 3) = [] := by
            rw [List.drop_eq_nil_iff, hcreate]
            omega
          rw [hnil]
          simp [lastGroup, ok_bind]
          rfl
      · have hgroup : (full ++ [w, x, y, 61]).length / 4 - 1 = full.length / 4 := by
          simp only [List.length_append, List.length_cons, List.length_nil]
          omega
        have hrest : (buffer.drop (full.length / 4 * 3)).length = if y = 61 then 1 else 2 := by
          simp only [List.length_drop, hcreate, hsome, List.length_append, List.length_cons,
            List.length_nil]
          split_ifs <;> omega
        have hgroups := decodeGroups_padded [w, x, y, 61] buffer hfull (by split_ifs at hrest <;>
          rw [List.length_drop] at hrest <;> omega)
        rw [hsome, if_neg (by split_ifs <;> decide), hgroup, hgroups, ok_bind,
          Lib.Base64.decode_padded hfull]
        cases hbytes : Lib.Base64.decodeFull full with
        | none => rfl
        | some bytes =>
          have hlast := lastGroup_eq hfull (Lib.Base64.length_decodeFull hbytes) w x y hrest
          simp only [Option.map_some, hlast, ok_bind, Option.bind_some]
          cases Lib.Base64.decodeLast w x y <;> rfl

/-! ## The codec -/

/-- The padding of a text tells how many bytes it stands for. -/
theorem length_add_padding (h : Lib.Base64.decode data = some bytes) :
    bytes.length + base64Padding data = data.length / 4 * 3 := by
  have hdata := Lib.Base64.encode_of_decode h
  have hwhole : data.length % 4 = 0 := by
    rw [← hdata, Lib.Base64.length_encode]
    omega
  rcases padding_cases hwhole with ⟨hnone, hlast⟩ | ⟨full, w, x, y, rfl, hfull, hsome⟩
  · rw [Lib.Base64.decode_of_full hlast] at h
    rw [hnone, Lib.Base64.length_decodeFull h]
    rfl
  · rw [Lib.Base64.decode_padded hfull] at h
    obtain ⟨before, hbefore, hmap⟩ := Option.bind_eq_some_iff.mp h
    obtain ⟨last, hlast, rfl⟩ := Option.map_eq_some_iff.mp hmap
    simp only [hsome, List.length_append, Lib.Base64.length_decodeFull hbefore,
      Lib.Base64.length_decodeLast hlast, List.length_cons, List.length_nil]
    split_ifs <;> omega

/-- What is decoded is exactly the text of a payload within the limit. -/
theorem base64Decode_ok_iff : Control.base64Decode data = .ok bytes ↔
    bytes.length ≤ maxPayloadBytes ∧ Lib.Base64.encode bytes = data := by
  rw [Control.base64Decode]
  constructor
  · intro h
    split_ifs at h with hlength hlimit
    split at h
    · rename_i decoded hdecode
      obtain rfl := Except.ok.inj h
      have hpadding := length_add_padding hdecode
      exact ⟨by omega, Lib.Base64.encode_of_decode hdecode⟩
    · cases h
  · rintro ⟨hbound, rfl⟩
    have hdecode := Lib.Base64.decode_encode bytes
    have hpadding := length_add_padding hdecode
    have hlength := Lib.Base64.length_encode bytes
    have hsmall : (bytes.length + 2) / 3 * 4 ≤ maxPayloadBase64Bytes :=
      Nat.mul_le_mul_right 4 (Nat.div_le_div_right (Nat.add_le_add_right hbound 2))
    rw [if_neg (by omega), if_neg (by omega), hdecode]

/-- The two functions on every input: no access leaves its buffer, every payload within the limit
comes back, and exactly the texts of such payloads are decoded. -/
theorem base64_ok (create : Allocator) :
    (∀ bytes, ∃ data, base64Encode bytes = .ok data) ∧
    (∀ data, ∃ result, base64Decode create data = .ok result) ∧
    (∀ bytes data, bytes.length ≤ maxPayloadBytes → base64Encode bytes = .ok data →
      base64Decode create data = .ok (.ok bytes)) ∧
    ∀ data bytes, base64Decode create data = .ok (.ok bytes) ↔
      bytes.length ≤ maxPayloadBytes ∧ base64Encode bytes = .ok data := by
  have hiff : ∀ data bytes, base64Decode create data = .ok (.ok bytes) ↔
      bytes.length ≤ maxPayloadBytes ∧ base64Encode bytes = .ok data := by
    intro data bytes
    rw [base64Decode_eq, base64Encode_eq, Except.ok.injEq, Except.ok.injEq, base64Decode_ok_iff]
  exact ⟨fun bytes => ⟨_, base64Encode_eq bytes⟩, fun data => ⟨_, base64Decode_eq create data⟩,
    fun bytes data hbound hdata => (hiff data bytes).mpr ⟨hbound, hdata⟩, hiff⟩

def cleared : Allocator := fun length => ⟨List.replicate length 0, List.length_replicate⟩

theorem base64_ok_letter : base64Encode (text "A") = .ok (text "QQ==") ∧
    base64Decode cleared (text "QQ==") = .ok (.ok (text "A")) :=
  ⟨rfl, (base64_ok cleared).2.2.1 (text "A") (text "QQ==") (by decide) rfl⟩

/-- Unused bits of the last symbol make another spelling of the same byte, which is refused. -/
example : Control.base64Decode (text "QQ==") = .ok (text "A") ∧
    ∃ error, Control.base64Decode (text "QR==") = .error error := ⟨rfl, _, rfl⟩

end OcamlTemporal.Protocol.Base64
