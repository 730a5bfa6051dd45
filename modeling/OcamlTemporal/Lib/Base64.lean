import Mathlib.Data.UInt

/-!
# OcamlTemporal.Lib.Base64

Padded base64 (RFC 4648) over byte lists. `decode` accepts canonical text only: whole groups
of four symbols, padding only at the end, and no bits left over in the last symbol before it.
`decode_encode` is the round trip and `encode_of_decode` the other one; `length_encode` says how
long the text is. `encode_append`, `decode_of_full` and `decode_padded` split the text at a group,
for programs that handle the last group apart.
-/

namespace OcamlTemporal.Lib.Base64

def symbol (n : Nat) : UInt8 :=
  if n < 26 then .ofNat (65 + n)
  else if n < 52 then .ofNat (71 + n)
  else if n < 62 then .ofNat (n - 4)
  else if n = 62 then 43
  else 47

def value (b : UInt8) : Option Nat :=
  if 65 ≤ b ∧ b ≤ 90 then some (b.toNat - 65)
  else if 97 ≤ b ∧ b ≤ 122 then some (b.toNat - 71)
  else if 48 ≤ b ∧ b ≤ 57 then some (b.toNat + 4)
  else if b = 43 then some 62
  else if b = 47 then some 63
  else none

def encode : List UInt8 → List UInt8
  | [] => []
  | [a] => [symbol (a.toNat / 4), symbol (a.toNat % 4 * 16), 61, 61]
  | [a, b] =>
    [symbol (a.toNat / 4), symbol (a.toNat % 4 * 16 + b.toNat / 16), symbol (b.toNat % 16 * 4), 61]
  | a :: b :: c :: rest =>
    symbol (a.toNat / 4) :: symbol (a.toNat % 4 * 16 + b.toNat / 16) ::
      symbol (b.toNat % 16 * 4 + c.toNat / 64) :: symbol (c.toNat % 64) :: encode rest

/-- The last group if it is padded. -/
def decodeLast (w x y : UInt8) : Option (List UInt8) := do
  let w ← value w
  let x ← value x
  if y = 61 then
    if x % 16 = 0 then return [.ofNat (w * 4 + x / 16)] else none
  else
    let y ← value y
    if y % 4 = 0 then return [.ofNat (w * 4 + x / 16), .ofNat (x % 16 * 16 + y / 4)] else none

def decode : List UInt8 → Option (List UInt8)
  | [] => some []
  | w :: x :: y :: z :: rest =>
    if rest = [] ∧ z = 61 then decodeLast w x y
    else do
      let w ← value w
      let x ← value x
      let y ← value y
      let z ← value z
      let bytes ← decode rest
      return .ofNat (w * 4 + x / 16) :: .ofNat (x % 16 * 16 + y / 4) ::
        .ofNat (y % 4 * 64 + z) :: bytes
  | _ => none

variable {n : Nat} {bytes data : List UInt8}

theorem value_symbol (h : n < 64) : value (symbol n) = some n := by
  have hall : ∀ n : Fin 64, value (symbol n) = some n.val := by decide
  exact hall ⟨n, h⟩

/-- A symbol is neither the padding nor a byte that a text would escape. -/
theorem symbol_bounds (h : n < 64) :
    symbol n ≠ 61 ∧ symbol n ≠ 34 ∧ symbol n ≠ 92 ∧ 32 ≤ symbol n ∧ symbol n < 127 := by
  have hall : ∀ n : Fin 64, symbol n ≠ 61 ∧ symbol n ≠ 34 ∧ symbol n ≠ 92 ∧ 32 ≤ symbol n ∧
      symbol n < 127 := by decide
  exact hall ⟨n, h⟩

theorem ofNat_eq {b : UInt8} (h : n = b.toNat) : UInt8.ofNat n = b := by
  rw [h, UInt8.ofNat_toNat]

theorem decode_encode (bytes : List UInt8) : decode (encode bytes) = some bytes := by
  induction bytes using encode.induct with
  | case1 => rfl
  | case2 a =>
    have ha := a.toNat_lt
    rw [encode, decode, if_pos ⟨rfl, rfl⟩, decodeLast, value_symbol (by omega),
      value_symbol (by omega)]
    have hbyte : UInt8.ofNat (a.toNat / 4 * 4 + a.toNat % 4 * 16 / 16) = a := ofNat_eq (by omega)
    simp only [if_true, Option.bind_eq_bind, Option.bind_some, hbyte,
      show a.toNat % 4 * 16 % 16 = 0 by omega]
    rfl
  | case3 a b =>
    have ha := a.toNat_lt
    have hb := b.toNat_lt
    have hpad := (symbol_bounds (show b.toNat % 16 * 4 < 64 by omega)).1
    rw [encode, decode, if_pos ⟨rfl, rfl⟩, decodeLast, value_symbol (by omega),
      value_symbol (by omega), value_symbol (by omega)]
    have hfirst : UInt8.ofNat (a.toNat / 4 * 4 + (a.toNat % 4 * 16 + b.toNat / 16) / 16) = a :=
      ofNat_eq (by omega)
    have hsecond : UInt8.ofNat ((a.toNat % 4 * 16 + b.toNat / 16) % 16 * 16 + b.toNat % 16 * 4 / 4)
        = b := ofNat_eq (by omega)
    simp only [hpad, if_false, Option.bind_eq_bind, Option.bind_some, hfirst, hsecond,
      show b.toNat % 16 * 4 % 4 = 0 by omega]
    rfl
  | case4 a b c rest ih =>
    have ha := a.toNat_lt
    have hb := b.toNat_lt
    have hc := c.toNat_lt
    have hpad := (symbol_bounds (show c.toNat % 64 < 64 by omega)).1
    rw [encode, decode, if_neg (fun h => hpad h.2), value_symbol (by omega),
      value_symbol (by omega),
      value_symbol (by omega), value_symbol (by omega), ih]
    have hfirst : UInt8.ofNat (a.toNat / 4 * 4 + (a.toNat % 4 * 16 + b.toNat / 16) / 16) = a :=
      ofNat_eq (by omega)
    have hsecond : UInt8.ofNat ((a.toNat % 4 * 16 + b.toNat / 16) % 16 * 16 +
        (b.toNat % 16 * 4 + c.toNat / 64) / 4) = b := ofNat_eq (by omega)
    have hthird : UInt8.ofNat ((b.toNat % 16 * 4 + c.toNat / 64) % 4 * 64 + c.toNat % 64) = c :=
      ofNat_eq (by omega)
    simp only [Option.bind_eq_bind, Option.bind_some, hfirst, hsecond, hthird]
    rfl

theorem encode_append (h : bytes.length % 3 = 0) (rest : List UInt8) :
    encode (bytes ++ rest) = encode bytes ++ encode rest := by
  induction bytes using encode.induct with
  | case1 => rfl
  | case2 a => simp at h
  | case3 a b => simp at h
  | case4 a b c bytes ih =>
    have hlength : bytes.length % 3 = 0 := by
      simp only [List.length_cons] at h
      omega
    simp only [List.cons_append, encode, ih hlength]

/-- The value of a symbol is a six-bit number that stands for it. -/
theorem symbol_value {b : UInt8} (h : value b = some n) : n < 64 ∧ symbol n = b := by
  have hall : ∀ i : Fin 256, ∀ n ∈ value (UInt8.ofNat i.val),
      n < 64 ∧ symbol n = UInt8.ofNat i.val := by decide +kernel
  have hb := hall ⟨b.toNat, b.toNat_lt⟩ n
  rw [UInt8.ofNat_toNat] at hb
  exact hb h

/-- The groups of a text that has no padding. -/
def decodeFull : List UInt8 → Option (List UInt8)
  | [] => some []
  | w :: x :: y :: z :: rest => do
    let w ← value w
    let x ← value x
    let y ← value y
    let z ← value z
    let bytes ← decodeFull rest
    return .ofNat (w * 4 + x / 16) :: .ofNat (x % 16 * 16 + y / 4) :: .ofNat
      (y % 4 * 64 + z) :: bytes
  | _ => none

theorem encode_group {w x y z : Nat} (hw : w < 64) (hx : x < 64) (hy : y < 64) (hz : z < 64)
    (bytes : List UInt8) :
    encode (.ofNat (w * 4 + x / 16) :: .ofNat (x % 16 * 16 + y / 4) :: .ofNat (y % 4 * 64 + z) ::
      bytes) = symbol w :: symbol x :: symbol y :: symbol z :: encode bytes := by
  have hfirst : (UInt8.ofNat (w * 4 + x / 16)).toNat = w * 4 + x / 16 :=
    UInt8.toNat_ofNat_of_lt (by show _ < 256; omega)
  have hsecond : (UInt8.ofNat (x % 16 * 16 + y / 4)).toNat = x % 16 * 16 + y / 4 :=
    UInt8.toNat_ofNat_of_lt (by show _ < 256; omega)
  have hthird : (UInt8.ofNat (y % 4 * 64 + z)).toNat = y % 4 * 64 + z :=
    UInt8.toNat_ofNat_of_lt (by show _ < 256; omega)
  rw [encode, hfirst, hsecond, hthird, show (w * 4 + x / 16) / 4 = w by omega,
    show (w * 4 + x / 16) % 4 * 16 + (x % 16 * 16 + y / 4) / 16 = x by omega,
    show (x % 16 * 16 + y / 4) % 16 * 4 + (y % 4 * 64 + z) / 64 = y by omega,
    show (y % 4 * 64 + z) % 64 = z by omega]

theorem encode_decodeLast {w x y : UInt8} (h : decodeLast w x y = some bytes) :
    encode bytes = [w, x, y, 61] := by
  rw [decodeLast] at h
  obtain ⟨w', hw, hrest⟩ := Option.bind_eq_some_iff.mp h
  obtain ⟨x', hx, hlast⟩ := Option.bind_eq_some_iff.mp hrest
  clear h hrest
  obtain ⟨hw', rfl⟩ := symbol_value hw
  obtain ⟨hx', rfl⟩ := symbol_value hx
  have hfirst : (UInt8.ofNat (w' * 4 + x' / 16)).toNat = w' * 4 + x' / 16 :=
    UInt8.toNat_ofNat_of_lt (by show _ < 256; omega)
  by_cases hy : y = 61
  · rw [if_pos hy] at hlast
    split_ifs at hlast with hunused
    obtain rfl := Option.some.inj hlast
    rw [encode, hfirst, hy, show (w' * 4 + x' / 16) / 4 = w' by omega,
      show (w' * 4 + x' / 16) % 4 * 16 = x' by omega]
  · rw [if_neg hy] at hlast
    obtain ⟨y', hy', hbytes⟩ := Option.bind_eq_some_iff.mp hlast
    obtain ⟨hlt, rfl⟩ := symbol_value hy'
    split_ifs at hbytes with hunused
    obtain rfl := Option.some.inj hbytes
    have hsecond : (UInt8.ofNat (x' % 16 * 16 + y' / 4)).toNat = x' % 16 * 16 + y' / 4 :=
      UInt8.toNat_ofNat_of_lt (by show _ < 256; omega)
    rw [encode, hfirst, hsecond, show (w' * 4 + x' / 16) / 4 = w' by omega,
      show (w' * 4 + x' / 16) % 4 * 16 + (x' % 16 * 16 + y' / 4) / 16 = x' by omega,
      show (x' % 16 * 16 + y' / 4) % 16 * 4 = y' by omega]

theorem encode_of_decode (h : decode data = some bytes) : encode bytes = data := by
  induction data using decode.induct generalizing bytes with
  | case1 =>
    obtain rfl := Option.some.inj h
    rfl
  | case2 w x y z rest hlast =>
    rw [decode, if_pos hlast] at h
    rw [hlast.1, hlast.2]
    exact encode_decodeLast h
  | case3 w x y z rest hmore ih =>
    rw [decode, if_neg hmore] at h
    obtain ⟨w', hw, h⟩ := Option.bind_eq_some_iff.mp h
    obtain ⟨x', hx, h⟩ := Option.bind_eq_some_iff.mp h
    obtain ⟨y', hy, h⟩ := Option.bind_eq_some_iff.mp h
    obtain ⟨z', hz, h⟩ := Option.bind_eq_some_iff.mp h
    obtain ⟨bytes', hrest, h⟩ := Option.bind_eq_some_iff.mp h
    obtain rfl := Option.some.inj h
    obtain ⟨hw', rfl⟩ := symbol_value hw
    obtain ⟨hx', rfl⟩ := symbol_value hx
    obtain ⟨hy', rfl⟩ := symbol_value hy
    obtain ⟨hz', rfl⟩ := symbol_value hz
    rw [encode_group hw' hx' hy' hz', ih hrest]
  | case4 data hnil hfour =>
    rw [decode.eq_def] at h
    split at h
    · exact absurd rfl hnil
    · exact absurd rfl (hfour _ _ _ _ _)
    · cases h

theorem decode_of_full (h : data.getLast? ≠ some 61) : decode data = decodeFull data := by
  induction data using decode.induct with
  | case1 => rfl
  | case2 w x y z rest hlast =>
    rw [hlast.1, hlast.2] at h
    exact absurd rfl h
  | case3 w x y z rest hmore ih =>
    have hrest : decode rest = decodeFull rest := by
      cases rest with
      | nil => rfl
      | cons b rest => exact ih (by simpa using h)
    rw [decode, if_neg hmore, decodeFull, hrest]
  | case4 data hnil hfour =>
    rw [decode.eq_def, decodeFull.eq_def]
    split
    · exact absurd rfl hnil
    · exact absurd rfl (hfour _ _ _ _ _)
    · rfl

theorem decode_padded (h : data.length % 4 = 0) (w x y : UInt8) :
    decode (data ++ [w, x, y, 61]) =
      (decodeFull data).bind fun bytes => (decodeLast w x y).map (bytes ++ ·) := by
  induction data using decodeFull.induct with
  | case1 =>
    rw [List.nil_append, decode, if_pos ⟨rfl, rfl⟩, decodeFull]
    cases decodeLast w x y <;> rfl
  | case2 a b c d rest ih =>
    have hrest : rest.length % 4 = 0 := by
      simp only [List.length_cons] at h
      omega
    have hmore : ¬ (rest ++ [w, x, y, 61] = [] ∧ d = 61) := by simp
    simp only [List.cons_append]
    rw [decode, if_neg hmore, decodeFull, ih hrest]
    cases value a <;> cases value b <;> cases value c <;> cases value d <;>
      cases decodeFull rest <;> cases decodeLast w x y <;> rfl
  | case3 data hnil hfour =>
    match data, hnil, hfour, h with
    | [a], _, _, h => simp at h
    | [a, b], _, _, h => simp at h
    | [a, b, c], _, _, h => simp at h
    | a :: b :: c :: d :: rest, _, hfour, _ => exact absurd rfl (hfour a b c d rest)

theorem length_decodeFull (h : decodeFull data = some bytes) :
    bytes.length = data.length / 4 * 3 := by
  induction data using decodeFull.induct generalizing bytes with
  | case1 =>
    obtain rfl := Option.some.inj h
    rfl
  | case2 w x y z rest ih =>
    rw [decodeFull] at h
    obtain ⟨w', hw, h₁⟩ := Option.bind_eq_some_iff.mp h
    obtain ⟨x', hx, h₂⟩ := Option.bind_eq_some_iff.mp h₁
    obtain ⟨y', hy, h₃⟩ := Option.bind_eq_some_iff.mp h₂
    obtain ⟨z', hz, h₄⟩ := Option.bind_eq_some_iff.mp h₃
    obtain ⟨bytes', hrest, h₅⟩ := Option.bind_eq_some_iff.mp h₄
    obtain rfl := Option.some.inj h₅
    simp only [List.length_cons, ih hrest]
    omega
  | case3 data hnil hfour =>
    rw [decodeFull.eq_def] at h
    split at h
    · exact absurd rfl hnil
    · exact absurd rfl (hfour _ _ _ _ _)
    · cases h

theorem length_decodeLast {w x y : UInt8} (h : decodeLast w x y = some bytes) :
    bytes.length = if y = 61 then 1 else 2 := by
  rw [decodeLast] at h
  obtain ⟨w', -, hrest⟩ := Option.bind_eq_some_iff.mp h
  obtain ⟨x', -, hlast⟩ := Option.bind_eq_some_iff.mp hrest
  clear h hrest
  split_ifs at hlast ⊢ with hy hunused
  · obtain rfl := Option.some.inj hlast
    rfl
  · obtain ⟨y', -, hbytes⟩ := Option.bind_eq_some_iff.mp hlast
    split_ifs at hbytes
    obtain rfl := Option.some.inj hbytes
    rfl

theorem length_encode (bytes : List UInt8) :
    (encode bytes).length = (bytes.length + 2) / 3 * 4 := by
  induction bytes using encode.induct with
  | case1 => rfl
  | case2 a => simp [encode]
  | case3 a b => simp [encode]
  | case4 a b c rest ih =>
    simp only [encode, List.length_cons, ih]
    omega

end OcamlTemporal.Lib.Base64
