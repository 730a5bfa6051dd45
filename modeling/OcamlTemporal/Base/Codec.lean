import Mathlib
import OcamlTemporal.Base.Error
import OcamlTemporal.Lib.Frames
import OcamlTemporal.Protocol.Values

/-!
# OcamlTemporal.Base.Codec

Payload codecs (`lib/base/codec.ml`): a codec turns a value into a payload and
back, and `option` extends a codec to optional values.

* Metadata is a list here as in the source, so a name may occur twice;
  `encodingMetadata` is the check that refuses it.
* Texts are bytes. The lengths of the envelope are native integers that
  `Int32.of_int` cuts to 32 bits when they are written, and `Int32.to_int` may
  make negative when they are read.
* `Codec.string` goes through the JSON library and is not modelled.
-/

namespace OcamlTemporal.Base

open Protocol (Bytes text)
open Lib

/-- A codec's two operations on payloads. -/
structure Codec (α : Type) where
  encodePayload : α → Except Error Protocol.Payload
  decodePayload : Protocol.Payload → Except Error α

namespace Codec

variable {α : Type}

/-- The loop of `encoding_metadata`, with the names seen so far. -/
def encodingMetadataLoop (seen : List Bytes) (encoding : Option Bytes) :
    List (Bytes × Bytes) → Except Error (Option Bytes)
  | [] => .ok encoding
  | (key, value) :: rest =>
    if key ∈ seen then .error (.codec "payload metadata contains a duplicate key")
    else
      encodingMetadataLoop (key :: seen) (if key = text "encoding" then some value else encoding)
        rest

/-- The encoding marker, if the metadata has one and no name twice. -/
def encodingMetadata (metadata : List (Bytes × Bytes)) : Except Error (Option Bytes) :=
  encodingMetadataLoop [] none metadata

/-- The encoding name reserved for the envelope of `option`. -/
def optionalWrapperEncoding : Bytes := text "binary/x-ocaml-optional"

def nullEncoding : Bytes := text "binary/null"

/-- One byte of an OCaml string literal (`String.escaped`). -/
def escaped (b : UInt8) : String :=
  if b = 0x22 then "\\\""
  else if b = 0x5C then "\\\\"
  else if b = 0x0A then "\\n"
  else if b = 0x09 then "\\t"
  else if b = 0x0D then "\\r"
  else if b = 0x08 then "\\b"
  else if 0x20 ≤ b ∧ b ≤ 0x7E then String.singleton (Char.ofNat b.toNat)
  else
    "\\" ++ toString (b.toNat / 100) ++ toString (b.toNat / 10 % 10) ++ toString (b.toNat % 10)

def quoted (value : Bytes) : String := "\"" ++ String.join (value.map escaped) ++ "\""

/-- A codec with one encoding name; the byte decoder runs only on a payload of that
name. Claiming the name of the envelope raises `Invalid_argument`. -/
def make (encoding : Bytes) (encode : α → Except Error Bytes) (decode : Bytes → Except Error α) :
    Except String (Codec α) :=
  if encoding = optionalWrapperEncoding then
    .error ("Codec.make: encoding " ++ quoted optionalWrapperEncoding ++
      " is reserved for Codec.option")
  else
    .ok
      { encodePayload value := (encode value).map fun data => ⟨[(text "encoding", encoding)], data⟩
        decodePayload payload := do
          match ← encodingMetadata payload.metadata with
          | some actual =>
            if actual = encoding then decode payload.data
            else
              .error (.codec
                ("expected payload encoding " ++ quoted encoding ++ ", received " ++
                  quoted actual))
          | none => .error (.codec "payload has no encoding metadata") }

def encode (codec : Codec α) (value : α) : Except Error Protocol.Payload :=
  codec.encodePayload value

def decode (codec : Codec α) (payload : Protocol.Payload) : Except Error α :=
  codec.decodePayload payload

def unit : Except String (Codec Unit) :=
  make nullEncoding (fun _ => .ok [])
    fun data => if data.length = 0 then .ok () else .error (.codec "unit payload must be empty")

/-! ## The envelope -/

def addField (value : Bytes) : Bytes := be32 value.length ++ value

def addEntry (entry : Bytes × Bytes) : Bytes := addField entry.1 ++ addField entry.2

def serializePayload (payload : Protocol.Payload) : Bytes :=
  be32 payload.metadata.length ++ payload.metadata.flatMap addEntry ++
    (be32 payload.data.length ++ payload.data)

/-- `Bytes.get_int32_be`; the callers keep the four bytes within the data. -/
def getInt32Be (data : Bytes) (position : Nat) : Int :=
  match slice data position 4 with
  | [a, b, c, d] => ofBe32 a b c d
  | _ => 0

def readU32 (data : Bytes) (position : Nat) : Option (Int × Nat) :=
  if position + 4 > data.length then none else some (getInt32Be data position, position + 4)

def readField (data : Bytes) (position : Nat) : Option (Bytes × Nat) :=
  match readU32 data position with
  | none => none
  | some (size, position) =>
    if size < 0 ∨ position + size > data.length then none
    else some (slice data position size.toNat, position + size.toNat)

def readMetadata (data : Bytes) :
    Nat → Nat → List (Bytes × Bytes) → Option (List (Bytes × Bytes) × Nat)
  | 0, position, acc => some (acc.reverse, position)
  | remaining + 1, position, acc =>
    match readField data position with
    | none => none
    | some (key, position) =>
      match readField data position with
      | none => none
      | some (value, position) => readMetadata data remaining position ((key, value) :: acc)

def malformed : Error := .codec "malformed optional payload"

/-- The payload of a byte string; a truncated text, a negative length or trailing
bytes are refused. -/
def deserializePayload (data : Bytes) : Except Error Protocol.Payload :=
  match readU32 data 0 with
  | none => .error malformed
  | some (count, position) =>
    if count < 0 then .error malformed
    else
      match readMetadata data count.toNat position [] with
      | none => .error malformed
      | some (metadata, position) =>
        match readU32 data position with
        | none => .error malformed
        | some (dataLength, position) =>
          if dataLength < 0 ∨ position + dataLength ≠ data.length then .error malformed
          else .ok ⟨metadata, slice data position dataLength.toNat⟩

/-! ## Optional values -/

/-- Whether the encoding is one that `option` uses itself. -/
def collides : Option Bytes → Bool
  | some name => name = nullEncoding || name = optionalWrapperEncoding
  | none => false

/-- The payload of `some value`, given the payload of the value: itself, or an
envelope around it when its own encoding would be taken for `none` or an envelope. -/
def wrap (payload : Protocol.Payload) : Except Error Protocol.Payload := do
  let encoding ← encodingMetadata payload.metadata
  if collides encoding then
    return ⟨[(text "encoding", optionalWrapperEncoding)], serializePayload payload⟩
  else return payload

def option (codec : Codec α) : Codec (Option α) where
  encodePayload
    | none => .ok ⟨[(text "encoding", nullEncoding)], []⟩
    | some value => do
      let payload ← codec.encode value
      wrap payload
  decodePayload payload := do
    let encoding ← encodingMetadata payload.metadata
    if encoding = some nullEncoding then
      if payload.data.length = 0 then return none
      else .error (.codec "null payload must be empty")
    else if encoding = some optionalWrapperEncoding then
      let inner ← deserializePayload payload.data
      (codec.decode inner).map some
    else (codec.decode payload).map some

end Codec

end OcamlTemporal.Base
