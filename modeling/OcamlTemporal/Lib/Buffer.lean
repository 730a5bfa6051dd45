import Mathlib.Data.List.Basic

/-!
# OcamlTemporal.Lib.Buffer

**Buffers with unchecked access.** A read or write that the program does not check has no meaning
outside of the buffer, so it is a fault here, and a program that returns made none. A checked access
outside of the buffer is another fault.

* `set_behind` and `uncheckedSet_behind` write behind a known part, which is where a loop that fills
  a buffer from the left is.
* `forRange_ok` is the rule for such a loop.
-/

namespace OcamlTemporal.Lib.Buffer

inductive Fault
  -- an unchecked access outside of the buffer, or a value that is no byte
  | undefined
  -- a checked access outside of the buffer
  | invalidArgument
  deriving DecidableEq, Repr

def uncheckedGet {α : Type} (buffer : List α) (i : Nat) : Except Fault α :=
  match buffer[i]? with
  | some a => .ok a
  | none => .error .undefined

def get {α : Type} (buffer : List α) (i : Nat) : Except Fault α :=
  match buffer[i]? with
  | some a => .ok a
  | none => .error .invalidArgument

def uncheckedSet {α : Type} (buffer : List α) (i : Nat) (a : α) : Except Fault (List α) :=
  if i < buffer.length then .ok (buffer.set i a) else .error .undefined

def set {α : Type} (buffer : List α) (i : Nat) (a : α) : Except Fault (List α) :=
  if i < buffer.length then .ok (buffer.set i a) else .error .invalidArgument

def uncheckedByte (n : Nat) : Except Fault UInt8 :=
  if n < 256 then .ok (.ofNat n) else .error .undefined

def forRange {σ : Type} (bound : Nat) (body : σ → Nat → Except Fault σ) (s : σ) : Except Fault σ :=
  (List.range bound).foldlM body s

variable {α : Type}

theorem ok_bind {β : Type} (a : α) (f : α → Except Fault β) : (Except.ok a >>= f) = f a := rfl

variable {i : Nat} {p q : List α}

theorem uncheckedGet_ok {buffer : List α} {a : α} (h : buffer[i]? = some a) :
    uncheckedGet buffer i = .ok a := by
  rw [uncheckedGet, h]

theorem get_ok {buffer : List α} {a : α} (h : buffer[i]? = some a) : get buffer i = .ok a := by
  rw [get, h]

theorem set_behind {k : Nat} (hi : i = p.length + k) (h : k < q.length) (a : α) :
    set (p ++ q) i a = .ok (p ++ q.set k a) := by
  subst hi
  rw [set, if_pos (by simpa using h), List.set_append_right _ _ (Nat.le_add_right _ _),
    Nat.add_sub_cancel_left]

theorem uncheckedSet_behind {k : Nat} (hi : i = p.length + k) (h : k < q.length) (a : α) :
    uncheckedSet (p ++ q) i a = .ok (p ++ q.set k a) := by
  subst hi
  rw [uncheckedSet, if_pos (by simpa using h), List.set_append_right _ _ (Nat.le_add_right _ _),
    Nat.add_sub_cancel_left]

theorem uncheckedByte_ok {n : Nat} (h : n < 256) : uncheckedByte n = .ok (.ofNat n) := if_pos h

/-- **Loop rule.** If every round leads from one state of a sequence to the next, the loop leads
from the first to the last. -/
theorem forRange_ok {σ : Type} {bound : Nat} {body : σ → Nat → Except Fault σ} (state : Nat → σ)
    (h : ∀ i < bound, body (state i) i = .ok (state (i + 1))) :
    forRange bound body (state 0) = .ok (state bound) := by
  induction bound with
  | zero => rfl
  | succ bound ih =>
    have hbefore := ih fun i hi => h i (Nat.lt_succ_of_lt hi)
    rw [forRange] at hbefore ⊢
    rw [List.range_succ, List.foldlM_append, hbefore]
    exact (bind_pure _).trans (h bound (Nat.lt_succ_self bound))

end OcamlTemporal.Lib.Buffer
