import OcamlTemporal.Lib.Utf8
import OcamlTemporal.Protocol.Values

/-!
# OcamlTemporal.Protocol.ErrorType

The type of an application error: the check that the public constructor makes
(`Error.normalize_error_type` of `lib/base/error.ml`) and the rewriting of a type
that another SDK wrote (`sanitize_inbound_error_type` of
`lib/protocol/failure_diagnostic.ml`).

An index into the text is the rest of the text from there on, and `Lib.Utf8.decode`
is `String.get_utf_8_uchar`. The two sources repeat the limit and the counting of
encoded characters; each has its own name here.
-/

namespace OcamlTemporal.Protocol

open Lib

/-- The characters that a text takes as a JSON string: two for a double quote and a
backslash, one for every other byte. -/
def encodedLength (value : Bytes) : Nat :=
  value.foldl (fun length c => if c = 0x22 ∨ c = 0x5C then length + 2 else length + 1) 0

/-! ## The constructor's check -/

def maxErrorTypeBytes : Nat := 65536

def encodedErrorTypeLength (value : Bytes) : Nat := encodedLength value

/-- The type that is kept, none for an empty one; `Invalid_argument` otherwise. -/
def normalizeErrorType : Option Bytes → Except String (Option Bytes)
  | none => .ok none
  | some value =>
    if value = [] then .ok none
    else if validUtf8 value = false then .error "Error.make: error_type is not valid UTF-8"
    else if value.any (fun c => c < 0x20 || c = 0x7F) then
      .error "Error.make: error_type contains a control character"
    else if encodedErrorTypeLength value > maxErrorTypeBytes then
      .error "Error.make: error_type exceeds 65536 encoded characters"
    else .ok (some value)

/-! ## The rewriting of an inbound type -/

def maxInboundErrorTypeEncodedLength : Nat := 65536

def inboundErrorTypeTruncationMarker : Bytes := text "..."

def hexDigit (n : Nat) : UInt8 := UInt8.ofNat (if n < 10 then 0x30 + n else 0x37 + n)

/-- The `\\u%04X` of `Printf`, for a code below `0x10000`. -/
def unicodeEscape (code : Nat) : Bytes :=
  [0x5C, 0x75, hexDigit (code / 4096 % 16), hexDigit (code / 256 % 16), hexDigit (code / 16 % 16),
    hexDigit (code % 16)]

/-- What stands for the first character of the text. -/
def chunk (value : Bytes) : Bytes :=
  match (Utf8.decode value).uchar with
  | none => [0xEF, 0xBF, 0xBD]
  | some code =>
    if code < 0x20 ∨ code = 0x7F then unicodeEscape code
    else value.take (Utf8.decode value).length

/-- The text's chunks with their encoded lengths. -/
def chunks : Bytes → List (Bytes × Nat)
  | [] => []
  | b :: rest =>
    let value := b :: rest
    (chunk value, encodedLength (chunk value)) :: chunks (value.drop (Utf8.decode value).length)
termination_by value => value.length
decreasing_by
  have hpos := Utf8.length_decode_pos b rest
  rw [List.length_drop]
  exact Nat.sub_lt (Nat.succ_pos _) hpos

/-- Whole chunks while they stay within the budget. -/
def takeChunks (budget used : Nat) : List (Bytes × Nat) → Bytes
  | [] => []
  | (chunk, length) :: rest =>
    if used + length ≤ budget then chunk ++ takeChunks budget (used + length) rest else []

def sanitizeInboundErrorType (value : Bytes) : Bytes :=
  let limit := maxInboundErrorTypeEncodedLength
  let marker := inboundErrorTypeTruncationMarker
  let total := (chunks value).foldl (fun sum chunk => sum + chunk.2) 0
  if total ≤ limit then ((chunks value).map Prod.fst).flatten
  else takeChunks (limit - marker.length) 0 (chunks value) ++ marker

end OcamlTemporal.Protocol
