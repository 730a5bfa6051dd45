import Mathlib.Data.List.Nodup
import Mathlib.Logic.Function.Basic
import Mathlib.Logic.Relation

/-!
# OcamlTemporal.Lib.Ledger

Numbered operations, abstractly. A **ledger** hands out the numbers 1, 2, 3, …,
keeps the kind of every operation that is open, and settles an open operation by
closing it. Nothing is said about where the kinds are stored: a program with one
table per kind refines a ledger, and then a number is a key of at most one of its
tables and is closed at most once (`Ledger.Valid`).
-/

namespace OcamlTemporal.Lib

open Relation (ReflTransGen)

/-- The last number handed out, the open operations, and the numbers closed so far
in order. -/
structure Ledger (K : Type) where
  last : Nat
  entry : Nat → Option K
  closed : List Nat

namespace Ledger

variable {K : Type}

def empty : Ledger K := ⟨0, fun _ => none, []⟩

/-- Hands out a number that no operation uses. -/
def skip (l : Ledger K) : Ledger K := { l with last := l.last + 1 }

def openNext (l : Ledger K) (k : K) : Ledger K :=
  { l with last := l.last + 1, entry := Function.update l.entry (l.last + 1) (some k) }

/-- Forgets an operation without settling it. -/
def drop (l : Ledger K) (n : Nat) : Ledger K := { l with entry := Function.update l.entry n none }

def close (l : Ledger K) (n : Nat) : Ledger K := { l.drop n with closed := l.closed ++ [n] }

def clear (l : Ledger K) : Ledger K := { l with entry := fun _ => none }

/-- What can happen to a ledger; only an open operation is closed. -/
inductive Step : Ledger K → Ledger K → Prop
  | skip {l : Ledger K} : Step l l.skip
  | openNext {l : Ledger K} (k : K) : Step l (l.openNext k)
  | drop {l : Ledger K} (n : Nat) : Step l (l.drop n)
  | close {l : Ledger K} {n : Nat} {k : K} (h : l.entry n = some k) : Step l (l.close n)
  | clear {l : Ledger K} : Step l l.clear

/-- Only the numbers 1, …, `last` are used, and a closed number stays closed. -/
structure Valid (l : Ledger K) : Prop where
  zero : l.entry 0 = none
  fresh : ∀ n, l.last < n → l.entry n = none
  closed_le : ∀ n ∈ l.closed, n ≤ l.last
  closed_entry : ∀ n ∈ l.closed, l.entry n = none
  nodup : l.closed.Nodup

theorem valid_empty : (empty : Ledger K).Valid :=
  ⟨rfl, fun _ _ => rfl, by simp [empty], by simp [empty], List.nodup_nil⟩

namespace Valid

variable {l : Ledger K} {n : Nat} {k : K}

/-- An open operation has a number that was handed out. -/
theorem entry_le (h : l.Valid) (hn : l.entry n = some k) : 1 ≤ n ∧ n ≤ l.last := by
  constructor
  · refine Nat.pos_of_ne_zero fun hzero => ?_
    rw [hzero, h.zero] at hn
    cases hn
  · by_contra hlt
    rw [h.fresh n (Nat.lt_of_not_le hlt)] at hn
    cases hn

theorem not_closed (h : l.Valid) (hn : l.entry n = some k) : n ∉ l.closed := fun hmem => by
  rw [h.closed_entry n hmem] at hn
  cases hn

theorem skip (h : l.Valid) : l.skip.Valid :=
  ⟨h.zero, fun n hn => h.fresh n (Nat.lt_of_succ_lt hn),
    fun n hn => Nat.le_succ_of_le (h.closed_le n hn), h.closed_entry, h.nodup⟩

theorem openNext (h : l.Valid) (k : K) : (l.openNext k).Valid := by
  have hold {n : Nat} (hn : n ≠ l.last + 1) : (l.openNext k).entry n = l.entry n :=
    Function.update_of_ne hn ..
  refine ⟨(hold (Nat.succ_ne_zero _).symm).trans h.zero, fun n hn => ?_, h.skip.closed_le,
    fun n hn => ?_, h.nodup⟩
  · rw [hold (Nat.ne_of_gt hn)]
    exact h.fresh n (Nat.lt_of_succ_lt hn)
  · rw [hold (Nat.ne_of_lt (Nat.lt_succ_of_le (h.closed_le n hn)))]
    exact h.closed_entry n hn

theorem drop (h : l.Valid) (n : Nat) : (l.drop n).Valid := by
  have hnone {m : Nat} (hm : l.entry m = none) : (l.drop n).entry m = none := by
    by_cases hmn : m = n
    · rw [hmn]
      exact Function.update_self ..
    · exact (Function.update_of_ne hmn ..).trans hm
  exact ⟨hnone h.zero, fun m hm => hnone (h.fresh m hm), h.closed_le,
    fun m hm => hnone (h.closed_entry m hm), h.nodup⟩

theorem close (h : l.Valid) (hn : l.entry n = some k) : (l.close n).Valid := by
  refine ⟨(h.drop n).zero, (h.drop n).fresh, fun m hm => ?_, fun m hm => ?_, ?_⟩
  · rcases List.mem_append.mp hm with hm | hm
    · exact h.closed_le m hm
    · rw [List.mem_singleton.mp hm]
      exact (h.entry_le hn).2
  · rcases List.mem_append.mp hm with hm | hm
    · exact (h.drop n).closed_entry m hm
    · rw [List.mem_singleton.mp hm]
      exact Function.update_self ..
  · exact h.nodup.append (List.nodup_singleton n) (by simpa using h.not_closed hn)

end Valid

theorem Step.valid {l l' : Ledger K} (h : Step l l') (hl : l.Valid) : l'.Valid := by
  cases h with
  | skip => exact hl.skip
  | openNext k => exact hl.openNext k
  | drop n => exact hl.drop n
  | close hn => exact hl.close hn
  | clear => exact ⟨rfl, fun _ _ => rfl, hl.closed_le, fun _ _ => rfl, hl.nodup⟩

end Ledger

end OcamlTemporal.Lib
