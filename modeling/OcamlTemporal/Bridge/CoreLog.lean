import Mathlib
import OcamlTemporal.Protocol.Values

/-!
# OcamlTemporal.Bridge.CoreLog

Core's records as lines on stderr (`format_core_log_line` and `BoundedText` of
`rust/core-bridge/src/diagnostics.rs`). A `&str` is read as its characters; a `String` that is built
is the bytes it has, so that a cut could fall into a character. A field that is not a string comes
as the text that serde renders.
-/

namespace OcamlTemporal.Bridge.CoreLog

open OcamlTemporal.Protocol

def utf8 (characters : List Char) : Bytes := characters.flatMap String.utf8EncodeChar

/-- `char::is_control`: the general category Cc. -/
def isControl (c : Char) : Bool := c.toNat < 32 || (127 ≤ c.toNat && c.toNat < 160)

def escapeUnicode (c : Char) : List Char :=
  ['\\', 'u', '\x7b'] ++ Nat.toDigits 16 c.toNat ++ ['\x7d']

def escapeDefault (c : Char) : List Char :=
  if c = '\t' then ['\\', 't']
  else if c = '\r' then ['\\', 'r']
  else if c = '\n' then ['\\', 'n']
  else if c = '\x27' ∨ c = '\x22' ∨ c = '\\' then ['\\', c]
  else if 0x20 ≤ c.toNat ∧ c.toNat ≤ 0x7e then [c]
  else escapeUnicode c

def truncatedMarker : Bytes := text "...[truncated]"

def maxCoreLogLineBytes : Nat := 2048

structure BoundedText where
  text : Bytes
  limit : Nat
  truncated : Bool

namespace BoundedText

def new (limit : Nat) : BoundedText := ⟨[], limit, false⟩

def pushUnit (self : BoundedText) (unit : Bytes) (budget : Nat) : BoundedText :=
  if self.text.length + unit.length > budget then { self with truncated := true }
  else { self with text := self.text ++ unit }

def unit (c : Char) : Bytes :=
  if isControl c then utf8 (escapeDefault c) else String.utf8EncodeChar c

def push (self : BoundedText) : List Char → BoundedText
  | [] => self
  | c :: rest =>
    if self.truncated then self
    else (self.pushUnit (unit c) (self.limit - truncatedMarker.length)).push rest

def finish (self : BoundedText) : Bytes :=
  if self.truncated then self.text ++ truncatedMarker else self.text

end BoundedText

/-- The fields of a record, each key once, in the order the map is walked. -/
abbrev Fields := List (List Char × List Char)

/-- One round of the loop over the sorted keys. -/
def pushField (fields : Fields) (line : BoundedText) (key : List Char) : BoundedText :=
  let line := (line.push [' ']).push key
  let line := line.push ['=']
  match fields.lookup key with
  | some value => line.push value
  | none => line

def sortedKeys (fields : Fields) : List (List Char) :=
  (fields.map Prod.fst).mergeSort fun a b => !decide (b < a)

def formatCoreLogLine (level target message : List Char) (fields : Fields) : Bytes :=
  let line := BoundedText.new maxCoreLogLineBytes
  let line := line.push "ocaml-temporal core ".toList
  let line := line.push level
  let line := line.push [' ']
  let line := line.push target
  let line := line.push [':', ' ']
  let line := line.push message
  let line := (sortedKeys fields).foldl (pushField fields) line
  line.finish ++ [10]

end OcamlTemporal.Bridge.CoreLog
