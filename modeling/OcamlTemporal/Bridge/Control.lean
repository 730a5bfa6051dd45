import Mathlib
import OcamlTemporal.Protocol.Control

/-!
# OcamlTemporal.Bridge.Control

The strict JSON foundation of the Rust side (`rust/core-bridge/src/protocol.rs`): its own
scan of the raw text, the visitor that serde drives over the parsed document, and the check
of the tree. `ProtocolError` has the fields of the OCaml error.

serde_json is a parameter (`SerdeParser`): any reader that gives back a tree from its text as long
as the library's own recursion guard lets it. `JsonValue` is a tree without fractions: `Signed` and
`Unsigned` are one integer. A Rust `String` is valid UTF-8 by its type, so nothing here checks it.
-/

namespace OcamlTemporal.Bridge.Control

open Lib (Json)
open Protocol (Bytes text validUtf8)

def maxDocumentBytes : Nat := 192 * 1024 * 1024

def maxDepth : Nat := 128

def maxStringBytes : Nat := 65536

def maxCollectionItems : Nat := maxDocumentBytes

def maxNodes : Nat := maxDocumentBytes

def maxPayloadBytes : Nat := 128 * 1024 * 1024

abbrev ProtocolError := Protocol.Control.Error

def ProtocolError.invalid (path message : String) : ProtocolError :=
  ⟨text "invalid_message", text path, text message⟩

/-! ## The scan of the raw text -/

/-- The variables of `preflight`'s loop. -/
structure Scan where
  depth : Nat
  inString : Bool
  escaped : Bool
  unicodeUnit : Nat
  unicodeDigits : Nat
  stringBytes : Nat
  deriving DecidableEq, Repr

def Scan.start : Scan := ⟨0, false, false, 0, 0, 0⟩

/-- The UTF-8 length of a code unit; a surrogate half counts two. -/
def unicodeEscapeBytes (unit : Nat) : Nat :=
  if unit ≤ 0x7F then 1
  else if unit ≤ 0x7FF then 2
  else if 0xD800 ≤ unit ∧ unit ≤ 0xDFFF then 2
  else 3

def toDigit16 (b : UInt8) : Option Nat :=
  if 48 ≤ b ∧ b ≤ 57 then some (b.toNat - 48)
  else if 97 ≤ b ∧ b ≤ 102 then some (b.toNat - 87)
  else if 65 ≤ b ∧ b ≤ 70 then some (b.toNat - 55)
  else none

/-- One byte inside of a string, and how many decoded bytes it completes. -/
def Scan.decoded (s : Scan) (b : UInt8) : Scan × Nat :=
  if s.unicodeDigits > 0 then
    match toDigit16 b with
    | some digit =>
      let unit := s.unicodeUnit * 16 + digit
      let left := s.unicodeDigits - 1
      ({ s with unicodeUnit := unit, unicodeDigits := left },
        if left = 0 then unicodeEscapeBytes unit else 0)
    | none => ({ s with unicodeDigits := 0 }, 1)
  else if s.escaped then
    if b = 117 then ({ s with escaped := false, unicodeUnit := 0, unicodeDigits := 4 }, 0)
    else ({ s with escaped := false }, 1)
  else if b = 92 then ({ s with escaped := true }, 0)
  else if b = 34 then ({ s with inString := false }, 0)
  else (s, 1)

/-- One turn of `preflight`'s loop. -/
def Scan.byte (stringLimit : Nat) (s : Scan) (b : UInt8) : Except ProtocolError Scan :=
  if s.inString then
    let (s, decoded) := s.decoded b
    if s.stringBytes + decoded > stringLimit then
      .error (.invalid "$" "JSON string byte limit exceeded")
    else .ok { s with stringBytes := s.stringBytes + decoded }
  else if b = 34 then .ok { s with inString := true, stringBytes := 0 }
  else if b = 123 ∨ b = 91 then
    if s.depth + 1 > maxDepth then .error (.invalid "$" "JSON nesting limit exceeded")
    else .ok { s with depth := s.depth + 1 }
  else if b = 125 ∨ b = 93 then .ok { s with depth := s.depth - 1 }
  else .ok s

def scan (stringLimit : Nat) : Bytes → Scan → Except ProtocolError Unit
  | [], _ => .ok ()
  | b :: rest, s => do
    let s ← s.byte stringLimit b
    scan stringLimit rest s

def preflight (stringLimit : Nat) (input : Bytes) : Except ProtocolError Unit :=
  if input.length > maxDocumentBytes then .error (.invalid "$" "document byte limit exceeded")
  else scan stringLimit input .start

/-! ## The visitor and the check of the tree -/

mutual

/-- `StrictValueVisitor`: what it makes of the parsed value. Serde hands an integer outside
of 64 bits over as a float. -/
def visit : Json → Option Json
  | .null => some .null
  | .bool b => some (.bool b)
  | .int n => if Protocol.Control.inInt64 n then some (.int n) else none
  | .float _ => none
  | .str s => some (.str s)
  | .arr items => (visitSeq 0 items).map .arr
  | .obj members => (visitMap [] members).map .obj

/-- `visit_seq`, with the number of values read before. -/
def visitSeq (count : Nat) : List Json → Option (List Json)
  | [] => some []
  | value :: rest => do
    let value ← visit value
    if count = maxCollectionItems then none
    else return value :: (← visitSeq (count + 1) rest)

def visitMap (seen : List Bytes) : List (Bytes × Json) → Option (List (Bytes × Json))
  | [] => some []
  | (key, value) :: rest =>
    if seen.length = maxCollectionItems then none
    else if key ∈ seen then none
    else do
      let value ← visit value
      return (key, value) :: (← visitMap (key :: seen) rest)

end

mutual

/-- `validate_tree`. The counter `nodes` is passed along and returned. -/
def validateTree (stringLimit depth nodes : Nat) (value : Json) : Except ProtocolError Nat :=
  if nodes + 1 > maxNodes ∨ depth > maxDepth then
    .error (.invalid "$" "JSON resource limit exceeded")
  else
    match value with
    | .str s =>
      if s.length > stringLimit then .error (.invalid "$" "decoded JSON string limit exceeded")
      else .ok (nodes + 1)
    | .arr items => validateTreeItems stringLimit (depth + 1) (nodes + 1) items
    | .obj members => validateTreeMembers stringLimit (depth + 1) (nodes + 1) members
    | _ => .ok (nodes + 1)

def validateTreeItems (stringLimit depth nodes : Nat) : List Json → Except ProtocolError Nat
  | [] => .ok nodes
  | value :: rest => do
    let nodes ← validateTree stringLimit depth nodes value
    validateTreeItems stringLimit depth nodes rest

def validateTreeMembers (stringLimit depth nodes : Nat) :
    List (Bytes × Json) → Except ProtocolError Nat
  | [] => .ok nodes
  | (key, value) :: rest => do
    if key.length > stringLimit then throw (.invalid "$" "decoded JSON key limit exceeded")
    let nodes ← validateTree stringLimit depth nodes value
    validateTreeMembers stringLimit depth nodes rest

end

/-! ## Documents

`Deserializer::from_str` sets `remaining_depth` to 128. Entering an array or an object counts
it down, and the parse fails where that makes it zero. So the guard refuses the 128th of the
nested collections, while `preflight` and `validate_tree` let 128 of them pass. -/

def remainingDepth : Nat := 128

/-- The reader of serde_json with its default guard. It returns the value and what it left
of the input. -/
structure SerdeParser where
  deserialize : Bytes → Option (Json × Bytes)
  deserialize_text : ∀ (del : Bool) (t : Json), t.strict (fun _ => true) validUtf8 = true →
    deserialize (t.text del) = if t.containers < remainingDepth then some (t, []) else none

/-- The reader of `Lib.Json` behind the guard is such a library. -/
def SerdeParser.reference : SerdeParser where
  deserialize input :=
    (Json.read input).bind fun t => if t.containers < remainingDepth then some (t, []) else none
  deserialize_text del _ h := by rw [Json.read_text del h, Option.bind_some]

/-- `Deserializer::end`: only white space is left. -/
def endOfInput (rest : Bytes) : Bool := rest.all fun b => b = 32 ∨ b = 10 ∨ b = 9 ∨ b = 13

def parseStrictWithStringLimit (serde : SerdeParser) (stringLimit : Nat) (input : Bytes) :
    Except ProtocolError Json := do
  preflight stringLimit input
  match serde.deserialize input with
  | some (parsed, rest) =>
    match visit parsed with
    | some value =>
      if !endOfInput rest then throw (.invalid "$" "trailing JSON input")
      let _ ← validateTree stringLimit 1 0 value
      return value
    | none => throw (.invalid "$" "invalid strict JSON document")
  | none => throw (.invalid "$" "invalid strict JSON document")

/-- `decode_object` and `decode_payload_object`, which differ in the limit of a string. -/
def decodeWith (serde : SerdeParser) (stringLimit : Nat) (input : Bytes) :
    Except ProtocolError Json := do
  match ← parseStrictWithStringLimit serde stringLimit input with
  | .obj members => return .obj members
  | _ => throw (.invalid "$" "operation body must be a JSON object")

def decodeObject (serde : SerdeParser) (input : Bytes) : Except ProtocolError Json :=
  decodeWith serde maxStringBytes input

end OcamlTemporal.Bridge.Control
