import Mathlib
import OcamlTemporal.Lib.Base64
import OcamlTemporal.Lib.Json
import OcamlTemporal.Protocol.Values

/-!
# OcamlTemporal.Protocol.Control

The strict JSON foundation of the OCaml side (`lib/protocol/control_protocol.ml`): the
scan of the raw text (`preflight`), the check of the parsed tree (`validate_json`), and the
objects that the typed protocols send and receive.

Yojson is a parameter (`JsonParser`): any reader that gives back every tree without
fractions from its text, whichever of the two printers wrote it and however deep it is.
Yojson's `` `Int `` and `` `Intlit `` are one integer here.
-/

namespace OcamlTemporal.Protocol

open Lib (Json)

/-- The reader of a JSON library that has no limit of its own, such as Yojson. -/
structure JsonParser where
  parse : Bytes → Option Json
  parse_text : ∀ (del : Bool) (t : Json), t.strict (fun _ => true) validUtf8 = true →
    parse (t.text del) = some t

/-- The reader of `Lib.Json` is such a library. -/
def JsonParser.reference : JsonParser where
  parse := Json.read
  parse_text del _ h := Json.read_text del h

namespace Control

def maxDocumentBytes : Nat := 192 * 1024 * 1024

def maxDepth : Nat := 128

def maxStringBytes : Nat := 65536

def maxCollectionItems : Nat := maxDocumentBytes

def maxNodes : Nat := maxDocumentBytes

def maxPayloadBytes : Nat := 128 * 1024 * 1024

def maxPayloadBase64Bytes : Nat := (maxPayloadBytes + 2) / 3 * 4

/-- A failed check: its code, the place in the document and the message. -/
structure Error where
  code : Bytes
  path : Bytes
  message : Bytes
  deriving DecidableEq, Repr

def invalidAt (path : Bytes) (message : String) : Error :=
  ⟨text "invalid_message", path, text message⟩

def invalid (message : String) : Error := invalidAt (text "$") message

/-! ## The scan of the raw text -/

mutual

def outside (stringLimit depth : Nat) : Bytes → Except Error Unit
  | [] => .ok ()
  | b :: rest =>
    if b = 34 then inside stringLimit depth 0 rest
    else if b = 123 ∨ b = 91 then
      if depth + 1 > maxDepth then .error (invalid "JSON nesting limit exceeded")
      else outside stringLimit (depth + 1) rest
    else if b = 125 ∨ b = 93 then outside stringLimit (depth - 1) rest
    else outside stringLimit depth rest

/-- The scan inside of a string. A backslash and the byte behind it are not counted. -/
def inside (stringLimit depth stringBytes : Nat) : Bytes → Except Error Unit
  | [] => .ok ()
  | b :: rest =>
    if b = 92 then
      match rest with
      | [] => .ok ()
      | _ :: rest => inside stringLimit depth stringBytes rest
    else if b = 34 then outside stringLimit depth rest
    else if stringBytes + 1 > stringLimit then .error (invalid "JSON string byte limit exceeded")
    else inside stringLimit depth (stringBytes + 1) rest

end

def preflight (stringLimit : Nat) (input : Bytes) : Except Error Unit :=
  if input.length > maxDocumentBytes then .error (invalid "document byte limit exceeded")
  else outside stringLimit 0 input

/-! ## The check of the tree -/

def inInt64 (n : Int) : Bool := decide (-2 ^ 63 ≤ n) && decide (n < 2 ^ 63)

mutual

/-- The `loop` of `validate_json`. The reference `nodes` is passed along and returned. -/
def validateLoop (stringLimit depth : Nat) (path : Bytes) (nodes : Nat) (value : Json) :
    Except Error Nat :=
  if depth > maxDepth then .error (invalidAt path "JSON nesting limit exceeded")
  else if nodes ≥ maxNodes then .error (invalidAt path "JSON node limit exceeded")
  else
    match value with
    | .null => .ok (nodes + 1)
    | .bool _ => .ok (nodes + 1)
    | .int n =>
      if inInt64 n then .ok (nodes + 1)
      else .error (invalidAt path "JSON integer is outside the signed 64-bit range")
    | .str s =>
      if s.length > stringLimit then .error (invalidAt path "decoded JSON string limit exceeded")
      else if !validUtf8 s then .error (invalidAt path "JSON string is not valid UTF-8")
      else .ok (nodes + 1)
    | .arr items =>
      if items.length > maxCollectionItems then
        .error (invalidAt path "JSON collection limit exceeded")
      else validateItems stringLimit (depth + 1) path (nodes + 1) 0 items
    | .obj members =>
      if members.length > maxCollectionItems then
        .error (invalidAt path "JSON collection limit exceeded")
      else validateMembers stringLimit (depth + 1) path (nodes + 1) [] members
    | .float _ => .error (invalidAt path "non-integral JSON numbers are not allowed")

def validateItems (stringLimit depth : Nat) (path : Bytes) (nodes index : Nat) :
    List Json → Except Error Nat
  | [] => .ok nodes
  | value :: rest => do
    let itemPath := path ++ text "[" ++ Lib.decimal index ++ text "]"
    let nodes ← validateLoop stringLimit depth itemPath nodes value
    validateItems stringLimit depth path nodes (index + 1) rest

/-- The fold over the members of an object, with the keys `seen` before. -/
def validateMembers (stringLimit depth : Nat) (path : Bytes) (nodes : Nat) (seen : List Bytes) :
    List (Bytes × Json) → Except Error Nat
  | [] => .ok nodes
  | (key, value) :: rest => do
    if key ∈ seen then throw (invalidAt path "duplicate JSON object member")
    if key.length > stringLimit ∨ validUtf8 key = false then
      throw (invalidAt path "invalid JSON object key")
    let nodes ← validateLoop stringLimit depth (path ++ text "." ++ key) nodes value
    validateMembers stringLimit depth path nodes (key :: seen) rest

end

def validateJson (stringLimit : Nat) (value : Json) : Except Error Unit := do
  let _ ← validateLoop stringLimit 1 (text "$") 0 value

/-! ## Documents -/

def parseStrict (json : JsonParser) (stringLimit : Nat) (input : Bytes) : Except Error Json := do
  preflight stringLimit input
  match json.parse input with
  | some value =>
    validateJson stringLimit value
    return value
  | none => throw (invalid "invalid strict JSON document")

/-- `decode_object` and `decode_payload_object`, which differ in the limit of a string. -/
def decodeWith (json : JsonParser) (stringLimit : Nat) (input : Bytes) : Except Error Json := do
  match ← parseStrict json stringLimit input with
  | .obj members => return .obj members
  | _ => throw (invalid "operation body must be a JSON object")

def decodeObject (json : JsonParser) (input : Bytes) : Except Error Json :=
  decodeWith json maxStringBytes input

/-- `Yojson.Safe.to_string (normalize_json value)`. Yojson escapes the byte `0x7F`. -/
def canonical (value : Json) : Bytes := value.normalize.text true

def encodePayloadObject (value : Json) : Except Error Bytes :=
  match value with
  | .obj _ => do
    validateJson maxPayloadBase64Bytes value
    preflight maxPayloadBase64Bytes (canonical value)
    return canonical value
  | _ => throw (invalid "operation body must be a JSON object")

/-! ## Opaque bytes -/

def expectObject (path : Bytes) : Json → Except Error (List (Bytes × Json))
  | .obj entries => .ok entries
  | _ => .error (invalidAt path "expected JSON object")

def expectString (path : Bytes) : Json → Except Error Bytes
  | .str value => .ok value
  | _ => .error (invalidAt path "expected JSON string")

def field (path : Bytes) (name : String) (entries : List (Bytes × Json)) : Except Error Json :=
  match entries.lookup (text name) with
  | some value => .ok value
  | none => .error (invalidAt path ("missing required field " ++ name))

/-- As many members as expected, and none of another name. -/
def exactFields (expected : List String) (entries : List (Bytes × Json)) : Bool :=
  entries.length = expected.length && entries.all fun e => (expected.map text).contains e.1

def requireExactFields (path : Bytes) (expected : List String) (entries : List (Bytes × Json)) :
    Except Error Unit :=
  if exactFields expected entries then .ok ()
  else .error (invalidAt path "object has missing or unknown fields")

def base64Encode (bytes : Bytes) : Bytes := Lib.Base64.encode bytes

/-- The number of padding symbols at the end of the text. -/
def base64Padding (data : Bytes) : Nat :=
  match data.reverse with
  | 61 :: 61 :: _ => 2
  | 61 :: _ => 1
  | _ => 0

def base64Decode (data : Bytes) : Except Error Bytes :=
  let notCanonical := invalidAt (text "$.data") "payload is not canonical padded base64"
  if data.length % 4 ≠ 0 ∨ data.length > maxPayloadBase64Bytes then .error notCanonical
  else if data.length / 4 * 3 - base64Padding data > maxPayloadBytes then
    .error (invalidAt (text "$.data") "decoded payload limit exceeded")
  else
    match Lib.Base64.decode data with
    | some bytes => .ok bytes
    | none => .error notCanonical

def decodePayloadJson (json : Json) : Except Error Bytes := do
  let entries ← expectObject (text "$") json
  requireExactFields (text "$") ["encoding", "data"] entries
  let encodingJson ← field (text "$") "encoding" entries
  let encoding ← expectString (text "$.encoding") encodingJson
  if encoding ≠ text "base64" then
    throw (invalidAt (text "$.encoding") "unsupported payload encoding")
  else do
    let dataJson ← field (text "$") "data" entries
    let data ← expectString (text "$.data") dataJson
    base64Decode data

def payloadJson (bytes : Bytes) : Except Error Json :=
  if bytes.length > maxPayloadBytes then
    .error (invalidAt (text "$.data") "decoded payload limit exceeded")
  else
    .ok (.obj [(text "encoding", .str (text "base64")), (text "data", .str (base64Encode bytes))])

end Control

end OcamlTemporal.Protocol
