import Mathlib
import OcamlTemporal.Base.Error

/-!
# OcamlTemporal.Runtime.Random

The seeded pseudo-random stream of a workflow execution
(`lib/runtime/workflow_context_store.ml`, from `seed_of_decimal` to
`random_bytes`). The 64-bit state is a `BitVec 64`, whose arithmetic wraps as
OCaml's `Int64` does.
-/

namespace OcamlTemporal.Random

def maximumSeed : String := "18446744073709551615"

/-- Canonical unsigned decimal text to the generator's bit pattern; `none` is
the source's `invalid_arg`. Zero becomes one, as xorshift needs. -/
def seedOfDecimal (seed : String) : Option (BitVec 64) :=
  let digits := seed.toList
  if digits.length = 0
      ∨ (1 < digits.length ∧ digits.head? = some '0')
      ∨ ¬ digits.all Char.isDigit
      ∨ maximumSeed.toList.length < digits.length
      ∨ (digits.length = maximumSeed.toList.length ∧ maximumSeed < seed) then
    none
  else
    let state := digits.foldl
      (fun (state : BitVec 64) digit => state * 10 + BitVec.ofNat 64 (digit.toNat - '0'.toNat)) 0
    some (if state = 0 then 1 else state)

def nextWord (value : BitVec 64) : BitVec 64 :=
  let value := value ^^^ (value <<< 13)
  let value := value ^^^ (value >>> 7)
  let value := value ^^^ (value <<< 17)
  if value = 0 then 1 else value

/-- `Int64.max_int`, the mask and the range of the accepted samples. -/
def maxInt : Nat := 2 ^ 63 - 1

/-- Rejection sampling below `limit`. The source loops until a sample is
accepted; the generator walks a finite cycle, so `fuel` bounds the redraws. -/
def draw (limit bound : Nat) : Nat → BitVec 64 → BitVec 64 × Nat
  | 0, state => (state, 0)
  | fuel + 1, state =>
    let state := nextWord state
    let sample := state.toNat % 2 ^ 63
    if limit ≤ sample then draw limit bound fuel state else (state, sample % bound)

def int (bound : Nat) (state : BitVec 64) : BitVec 64 × Nat :=
  draw (maxInt - maxInt % bound) bound (2 ^ 64) state

/-- The SplitMix64 output finalizer. -/
def mix (word : BitVec 64) : BitVec 64 :=
  let word := word ^^^ (word >>> 30)
  let word := word * 0xbf58476d1ce4e5b9
  let word := word ^^^ (word >>> 27)
  let word := word * 0x94d049bb133111eb
  word ^^^ (word >>> 31)

/-- `random_float` as the 53-bit numerator of its multiple of `2^-53`. -/
def float (state : BitVec 64) : BitVec 64 × Nat :=
  let state := nextWord state
  (state, (mix state >>> 11).toNat)

def maxBytes : Nat := 65536

/-- The low `count` bytes of a word, little-endian. -/
def wordBytes (word : BitVec 64) (count : Nat) : List UInt8 :=
  (List.range count).map fun index => UInt8.ofNat (word >>> (8 * index)).toNat

/-- Fills `length` bytes from consecutive words, eight at a time; `fuel` counts
the words. -/
def fill : Nat → Nat → BitVec 64 → BitVec 64 × List UInt8
  | 0, _, state => (state, [])
  | fuel + 1, length, state =>
    if length = 0 then (state, [])
    else
      let state := nextWord state
      let rest := fill fuel (length - 8) state
      (rest.1, wordBytes (mix state) (min 8 length) ++ rest.2)

/-- `random_bytes`; one word per byte is more than enough. -/
def bytes (length : Nat) (state : BitVec 64) : BitVec 64 × List UInt8 :=
  fill length length state

end OcamlTemporal.Random
