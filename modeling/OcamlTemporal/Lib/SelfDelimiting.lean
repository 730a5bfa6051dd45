import Mathlib.Data.List.Basic
import Mathlib.Logic.Function.Basic

/-!
# OcamlTemporal.Lib.SelfDelimiting

**Self-delimiting codes**: an encoder whose codewords can be read off the front
of any longer text in only one way. Such codes compose by concatenation, so a
nested record written field after field is uniquely decodable without a separate
parser.

* `SelfDelimiting.flatMap` reads a run of codewords back, once their number is
  known.
* `decimal` is the decimal notation of a number in ASCII.
* `netstring` writes the length of a text, a colon and the text itself;
  `netstring_selfDelimiting` says that this is self-delimiting.
-/

namespace OcamlTemporal.Lib

universe u v

/-- Two texts that start with codewords and agree have the same codeword and the
same rest. -/
def SelfDelimiting {α : Type u} {β : Type v} (enc : α → List β) : Prop :=
  ∀ ⦃a b : α⦄ ⦃x y : List β⦄, enc a ++ x = enc b ++ y → a = b ∧ x = y

namespace SelfDelimiting

variable {α : Type u} {β : Type v} {enc : α → List β}

theorem injective (h : SelfDelimiting enc) : Function.Injective enc := by
  intro a b hab
  have happend : enc a ++ [] = enc b ++ [] := by rw [hab]
  exact (h happend).1

/-- Runs of equally many codewords are read back one by one. -/
theorem flatMap (h : SelfDelimiting enc) {as bs : List α} {x y : List β}
    (hlen : as.length = bs.length) (heq : as.flatMap enc ++ x = bs.flatMap enc ++ y) :
    as = bs ∧ x = y := by
  induction as generalizing bs with
  | nil =>
    obtain rfl := List.length_eq_zero_iff.mp hlen.symm
    exact ⟨rfl, heq⟩
  | cons a as ih =>
    match bs, hlen with
    | b :: bs, hlen =>
      simp only [List.flatMap_cons, List.append_assoc] at heq
      obtain ⟨rfl, hrest⟩ := h heq
      obtain ⟨rfl, hxy⟩ := ih (Nat.succ.inj hlen) hrest
      exact ⟨rfl, hxy⟩

end SelfDelimiting

/-! ## Decimal numbers and netstrings -/

def decimal (n : Nat) : List UInt8 := (Nat.toDigits 10 n).map Char.toUInt8

def colon : UInt8 := 58

theorem toUInt8_toNat_of_isDigit {c : Char} (hc : c.isDigit = true) :
    c.toUInt8.toNat = c.toNat ∧ 48 ≤ c.toNat ∧ c.toNat ≤ 57 := by
  simp only [Char.isDigit, Bool.and_eq_true, decide_eq_true_eq] at hc
  have hlow : 48 ≤ c.toNat := hc.1
  have hhigh : c.toNat ≤ 57 := hc.2
  have hbyte : c.toUInt8.toNat = c.toNat % 256 := rfl
  omega

theorem ofNat_toUInt8_of_isDigit {c : Char} (hc : c.isDigit = true) :
    Char.ofNat c.toUInt8.toNat = c := by
  rw [(toUInt8_toNat_of_isDigit hc).1, Char.ofNat_toNat]

theorem colon_notMem_decimal (n : Nat) : colon ∉ decimal n := by
  intro h
  obtain ⟨c, hc, hcolon⟩ := List.mem_map.mp h
  have hdigit := toUInt8_toNat_of_isDigit (Nat.isDigit_of_mem_toDigits (by decide) (by decide) hc)
  have hval : c.toUInt8.toNat = 58 := by rw [hcolon]; rfl
  omega

theorem map_ofNat_decimal (n : Nat) :
    (decimal n).map (fun b => Char.ofNat b.toNat) = Nat.toDigits 10 n := by
  simp only [decimal, List.map_map]
  refine (List.map_congr_left fun c hc => ?_).trans (List.map_id _)
  exact ofNat_toUInt8_of_isDigit (Nat.isDigit_of_mem_toDigits (by decide) (by decide) hc)

theorem decimal_injective : Function.Injective decimal := by
  intro n m h
  have htoDigits : Nat.toDigits 10 n = Nat.toDigits 10 m := by
    rw [← map_ofNat_decimal n, ← map_ofNat_decimal m, h]
  rw [← Nat.ofDigitChars_ten_toDigits (n := n), htoDigits, Nat.ofDigitChars_ten_toDigits]

/-- Two texts split at their first separator agree on both sides of it. -/
theorem append_sep_inj {β : Type v} {sep : β} {a b x y : List β} (ha : sep ∉ a) (hb : sep ∉ b)
    (h : a ++ sep :: x = b ++ sep :: y) : a = b ∧ x = y := by
  induction a generalizing b with
  | nil =>
    match b with
    | [] => exact ⟨rfl, List.tail_eq_of_cons_eq h⟩
    | d :: b => exact absurd (List.head_eq_of_cons_eq h ▸ List.mem_cons_self) hb
  | cons c a ih =>
    match b with
    | [] => exact absurd (List.head_eq_of_cons_eq h ▸ List.mem_cons_self) ha
    | d :: b =>
      obtain ⟨rfl, hrest⟩ := List.cons.inj h
      obtain ⟨rfl, hxy⟩ := ih (fun hm => ha (List.mem_cons_of_mem _ hm))
        (fun hm => hb (List.mem_cons_of_mem _ hm)) hrest
      exact ⟨rfl, hxy⟩

def netstring (value : List UInt8) : List UInt8 := decimal value.length ++ colon :: value

theorem netstring_selfDelimiting : SelfDelimiting netstring := by
  intro a b x y h
  simp only [netstring, List.append_assoc, List.cons_append] at h
  obtain ⟨hlen, hrest⟩ := append_sep_inj (colon_notMem_decimal _) (colon_notMem_decimal _) h
  exact List.append_inj hrest (decimal_injective hlen)

end OcamlTemporal.Lib
