import OcamlTemporal.Lib.Buffer
import OcamlTemporal.Protocol.Control

/-!
# OcamlTemporal.Protocol.Base64

The two loops of the payload codec (`base64_encode` and `base64_decode` of
`lib/protocol/control_protocol.ml`), with their buffers. `Control.base64Encode` and
`Control.base64Decode` say what they compute; here every read and write of the source is an access
to a buffer, and one that the source does not check is a fault where it leaves the buffer.
-/

namespace OcamlTemporal.Protocol.Base64

open Lib.Buffer Control

def base64Alphabet : Bytes :=
  text "ABCDEFGHIJKLMNOPQRSTUVWXYZabcdefghijklmnopqrstuvwxyz0123456789+/"

def symbol (index : Nat) : Except Fault UInt8 := uncheckedGet base64Alphabet (index &&& 63)

def encodeGroup (bytes output : Bytes) (group : Nat) : Except Fault Bytes := do
  let inputOffset := group * 3
  let outputOffset := group * 4
  let first := (← uncheckedGet bytes inputOffset).toNat
  let second := (← uncheckedGet bytes (inputOffset + 1)).toNat
  let third := (← uncheckedGet bytes (inputOffset + 2)).toNat
  let output ← uncheckedSet output outputOffset (← symbol (first >>> 2))
  let output ← uncheckedSet output (outputOffset + 1) (← symbol (first <<< 4 ||| second >>> 4))
  let output ← uncheckedSet output (outputOffset + 2) (← symbol (second <<< 2 ||| third >>> 6))
  uncheckedSet output (outputOffset + 3) (← symbol third)

/-- The bytes after the whole groups. The padding is in the buffer already. -/
def encodeTail (bytes output : Bytes) (groups : Nat) : Except Fault Bytes :=
  let inputOffset := groups * 3
  let outputOffset := groups * 4
  match bytes.length - inputOffset with
  | 1 => do
    let first := (← get bytes inputOffset).toNat
    let output ← set output outputOffset (← symbol (first >>> 2))
    set output (outputOffset + 1) (← symbol (first <<< 4))
  | 2 => do
    let first := (← get bytes inputOffset).toNat
    let second := (← get bytes (inputOffset + 1)).toNat
    let output ← set output outputOffset (← symbol (first >>> 2))
    let output ← set output (outputOffset + 1) (← symbol (first <<< 4 ||| second >>> 4))
    set output (outputOffset + 2) (← symbol (second <<< 2))
  | _ => .ok output

def base64Encode (bytes : Bytes) : Except Fault Bytes := do
  let output := List.replicate ((bytes.length + 2) / 3 * 4) 61
  let groups := bytes.length / 3
  let output ← forRange groups (encodeGroup bytes) output
  encodeTail bytes output groups

/-- The six-bit value of every byte, or `0xff`. -/
def base64DecodeTable : Bytes :=
  (List.range 64).foldl (fun table value => table.set (base64Alphabet.getD value 0).toNat
    (.ofNat value)) (List.replicate 256 0xff)

def symbolValue (data : Bytes) (index : Nat) : Except Fault Nat := do
  let symbol ← uncheckedGet data index
  let value ← uncheckedGet base64DecodeTable symbol.toNat
  return value.toNat

def value (data : Bytes) (index : Nat) : Except Fault Nat := do
  let symbol ← get data index
  let value ← get base64DecodeTable symbol.toNat
  return value.toNat

/-- The whole groups that are left, from a group on; nothing if a symbol is not in the alphabet. -/
def decodeGroups (data : Bytes) : Nat → Nat → Bytes → Except Fault (Option Bytes)
  | 0, _, output => .ok (some output)
  | left + 1, group, output => do
    let inputOffset := group * 4
    let first ← symbolValue data inputOffset
    let second ← symbolValue data (inputOffset + 1)
    let third ← symbolValue data (inputOffset + 2)
    let fourth ← symbolValue data (inputOffset + 3)
    if (first ||| second ||| third ||| fourth) &&& 0x80 ≠ 0 then return none
    else
      let bits := first <<< 18 ||| second <<< 12 ||| third <<< 6 ||| fourth
      let outputOffset := group * 3
      let output ← uncheckedSet output outputOffset (← uncheckedByte (bits >>> 16))
      let output ← uncheckedSet output (outputOffset + 1) (← uncheckedByte ((bits >>> 8) &&& 0xff))
      let output ← uncheckedSet output (outputOffset + 2) (← uncheckedByte (bits &&& 0xff))
      decodeGroups data left (group + 1) output

def store (output : Bytes) (outputOffset count first second third : Nat) :
    Except Fault Bytes := do
  let bits := first <<< 18 ||| second <<< 12 ||| third <<< 6
  let output ← set output outputOffset (← uncheckedByte (bits >>> 16))
  if 1 < count then set output (outputOffset + 1) (← uncheckedByte ((bits >>> 8) &&& 0xff))
  else .ok output

/-- The last group, if it is padded; nothing if it is not canonical. -/
def lastGroup (data output : Bytes) (fullGroups padding : Nat) : Except Fault (Option Bytes) :=
  let inputOffset := fullGroups * 4
  let outputOffset := fullGroups * 3
  match padding with
  | 1 => do
    let first ← value data inputOffset
    let second ← value data (inputOffset + 1)
    let third ← value data (inputOffset + 2)
    if (first ||| second ||| third) &&& 0x80 ≠ 0 ∨ third &&& 3 ≠ 0 then return none
    else return some (← store output outputOffset 2 first second third)
  | 2 => do
    let first ← value data inputOffset
    let second ← value data (inputOffset + 1)
    if (first ||| second) &&& 0x80 ≠ 0 ∨ second &&& 15 ≠ 0 then return none
    else return some (← store output outputOffset 1 first second 0)
  | _ => .ok (some output)

/-- The number of padding symbols, with checked reads. -/
def padding (data : Bytes) : Except Fault Nat :=
  let length := data.length
  if length = 0 then .ok 0
  else do
    let last ← get data (length - 1)
    if last = 61 then
      if 2 ≤ length then
        let before ← get data (length - 2)
        return if before = 61 then 2 else 1
      else return 1
    else return 0

/-- A new buffer of a length, whose bytes are arbitrary until they are written. -/
abbrev Allocator := (length : Nat) → { buffer : Bytes // buffer.length = length }

def base64Decode (create : Allocator) (data : Bytes) :
    Except Fault (Except Control.Error Bytes) := do
  let notCanonical := invalidAt (text "$.data") "payload is not canonical padded base64"
  let length := data.length
  if length % 4 ≠ 0 ∨ length > maxPayloadBase64Bytes then return .error notCanonical
  else
    let padding ← padding data
    let decodedLength := length / 4 * 3 - padding
    if decodedLength > maxPayloadBytes then
      return .error (invalidAt (text "$.data") "decoded payload limit exceeded")
    else
      let fullGroups := if padding = 0 then length / 4 else length / 4 - 1
      match ← decodeGroups data fullGroups 0 (create decodedLength) with
      | none => return .error notCanonical
      | some output =>
        match ← lastGroup data output fullGroups padding with
        | none => return .error notCanonical
        | some output => return .ok output

end OcamlTemporal.Protocol.Base64
