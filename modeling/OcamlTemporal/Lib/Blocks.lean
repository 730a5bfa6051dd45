import Mathlib.Data.List.Basic
import Mathlib.Order.Bounds.Basic

/-!
# OcamlTemporal.Lib.Blocks

Lists that are one block after another, where an element tells whether it starts a
block or continues one.

* `Whole block value`: `value` is a sequence of blocks.
* `IsCut block value n`: `n` is a place of `value` between two blocks.
* `Synchronizing`: the first element of a block and only that one does not continue
  a block, and a block is not longer than the width.
* `isCut_iff`: under that, one element tells whether a place is between blocks.
* `exists_isCut`: no `width` places in a row are all inside blocks.

A search downwards from a bound for a place between blocks ends at the greatest one;
`isGreatest_self` and `isGreatest_succ_iff` are its two steps.
-/

namespace OcamlTemporal.Lib.Blocks

variable {α : Type*} {block : List α → Prop} {value piece rest : List α} {n : Nat}

/-- One block after another. -/
inductive Whole (block : List α → Prop) : List α → Prop
  | nil : Whole block []
  | cons {piece rest : List α} : block piece → Whole block rest → Whole block (piece ++ rest)

/-- A place between two blocks, or at an end. -/
structure IsCut (block : List α → Prop) (value : List α) (n : Nat) : Prop where
  le : n ≤ value.length
  front : Whole block (value.take n)
  back : Whole block (value.drop n)

theorem IsCut.zero (h : Whole block value) : IsCut block value 0 :=
  ⟨Nat.zero_le _, by simpa using Whole.nil, by simpa using h⟩

theorem IsCut.append (hpiece : block piece) (h : IsCut block rest n) :
    IsCut block (piece ++ rest) (piece.length + n) where
  le := by
    rw [List.length_append]
    exact Nat.add_le_add_left h.le _
  front := by
    rw [List.take_length_add_append]
    exact .cons hpiece h.front
  back := by
    rw [List.drop_length_add_append]
    exact h.back

/-! ## Blocks that can be told apart -/

/-- The first element of a block and only that one does not continue a block. -/
structure Synchronizing (block : List α → Prop) (continues : α → Prop) (width : Nat) : Prop where
  shape : ∀ {piece}, block piece → ∃ first tail, piece = first :: tail ∧ ¬ continues first ∧
    (∀ x ∈ tail, continues x) ∧ tail.length < width

section

variable {continues : α → Prop} {width : Nat} (hsync : Synchronizing block continues width)

include hsync

theorem Whole.not_continues {x : α} (h : Whole block (x :: rest)) : ¬ continues x := by
  generalize hvalue : x :: rest = value at h
  cases h with
  | nil => cases hvalue
  | cons hpiece _ =>
    obtain ⟨first, tail, rfl, hfirst, -⟩ := hsync.shape hpiece
    rw [List.cons_append] at hvalue
    exact (List.cons.inj hvalue).1 ▸ hfirst

/-- A place is between blocks exactly if the element there does not continue one. -/
theorem isCut_iff (h : Whole block value) {x : α} (hx : value[n]? = some x) :
    IsCut block value n ↔ ¬ continues x := by
  constructor
  · intro hcut
    obtain ⟨hn, rfl⟩ := List.getElem?_eq_some_iff.mp hx
    have hback := hcut.back
    rw [List.drop_eq_getElem_cons hn] at hback
    exact hback.not_continues hsync
  · intro hx'
    -- The place lies in the first block, and then at its start, or in the rest.
    induction h generalizing n with
    | nil => cases hx
    | @cons piece rest hpiece hrest ih =>
      by_cases hn : n < piece.length
      · rw [List.getElem?_append_left hn] at hx
        obtain ⟨first, tail, rfl, -, htail, -⟩ := hsync.shape hpiece
        cases n with
        | zero => exact .zero (.cons hpiece hrest)
        | succ n =>
          rw [List.getElem?_cons_succ] at hx
          exact absurd (htail x (List.mem_of_getElem? hx)) hx'
      · obtain ⟨m, rfl⟩ := Nat.exists_eq_add_of_le (Nat.le_of_not_lt hn)
        rw [List.getElem?_append_right (Nat.le_add_right _ m), Nat.add_sub_cancel_left] at hx
        exact (ih hx).append hpiece

/-- Going back from any place, there is a cut within the width. -/
theorem exists_isCut (h : Whole block value) (hn : n < value.length) :
    ∃ m, IsCut block value m ∧ m ≤ n ∧ n < m + width := by
  induction h generalizing n with
  | nil => cases hn
  | @cons piece rest hpiece hrest ih =>
    by_cases hlt : n < piece.length
    · obtain ⟨first, tail, rfl, -, -, hwidth⟩ := hsync.shape hpiece
      refine ⟨0, .zero (.cons hpiece hrest), Nat.zero_le _, ?_⟩
      rw [List.length_cons] at hlt
      omega
    · obtain ⟨m, rfl⟩ := Nat.exists_eq_add_of_le (Nat.le_of_not_lt hlt)
      rw [List.length_append, Nat.add_lt_add_iff_left] at hn
      obtain ⟨k, hcut, hle, hwidth⟩ := ih hn
      exact ⟨piece.length + k, hcut.append hpiece, by omega, by omega⟩

end

/-! ## The last place up to a bound -/

section

variable {p : Nat → Prop} {bound : Nat}

theorem isGreatest_self (h : p bound) : IsGreatest {m | m ≤ bound ∧ p m} bound :=
  ⟨⟨Nat.le_refl _, h⟩, fun _ hm => hm.1⟩

theorem isGreatest_succ_iff (hnot : ¬ p (bound + 1)) :
    IsGreatest {m | m ≤ bound + 1 ∧ p m} n ↔ IsGreatest {m | m ≤ bound ∧ p m} n := by
  have hsame : {m | m ≤ bound + 1 ∧ p m} = {m | m ≤ bound ∧ p m} := by
    ext m
    refine ⟨fun hm => ?_, fun hm => ⟨Nat.le_succ_of_le hm.1, hm.2⟩⟩
    have hne : m ≠ bound + 1 := fun heq => hnot (heq ▸ hm.2)
    exact ⟨Nat.le_of_lt_succ (Nat.lt_of_le_of_ne hm.1 hne), hm.2⟩
  rw [hsame]

end

end OcamlTemporal.Lib.Blocks
