import OcamlTemporal.Protocol.Values

/-!
# OcamlTemporal.Protocol.Truncation

The two truncators that step back over continuation bytes: `bounded_text` of
`lib/protocol/failure_diagnostic.ml`, for the texts of a failure that a server sent,
and `bounded` of `lib/public/replay.ml`, for the messages of a replay. Each has the
same local loop, here `boundary`.

The other two truncators shrink the text until it is valid; they are
`Activity.boundedText` and `Worker.boundedMessage`.

An index or a length outside the text is `Invalid_argument` with the message of the
standard library.
-/

namespace OcamlTemporal.Protocol

def charAt (value : Bytes) (index : Nat) : Except String UInt8 :=
  match value[index]? with
  | some b => .ok b
  | none => .error "index out of bounds"

def subFront (value : Bytes) (length : Nat) : Except String Bytes :=
  if length ≤ value.length then .ok (value.take length)
  else .error "String.sub / Bytes.sub"

/-- The last place up to the given one where no continuation byte stands; the start if
there is none. -/
def boundary (value : Bytes) : Nat → Except String Nat
  | 0 => .ok 0
  | length + 1 => do
    let b ← charAt value (length + 1)
    if b &&& 0xC0 = 0x80 then boundary value length else return length + 1

def cutAt (value : Bytes) (limit : Nat) : Except String Bytes := do
  let front ← subFront value (← boundary value limit)
  return front ++ text "..."

namespace FailureDiagnostic

/-- The marker comes on top of the limit. -/
def boundedText (limit : Nat) (value : Bytes) : Except String Bytes :=
  if value.length ≤ limit then .ok value else cutAt value limit

end FailureDiagnostic

namespace Replay

def maxMessageBytes : Nat := 4096

def bounded (value : Bytes) : Except String Bytes :=
  if value.length ≤ maxMessageBytes then .ok value else cutAt value (maxMessageBytes - 3)

end Replay

end OcamlTemporal.Protocol
