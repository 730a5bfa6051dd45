import Mathlib.Logic.Relation
import Mathlib.Data.List.Basic

/-!
# OcamlTemporal.Lib.StackMachine

**Deterministic machines whose control is a stack of tasks.** A step pops the
task on top, updates the store and pushes the tasks it leads to. Sequential code
with re-entrant callbacks fits this shape: the stack is the call stack, written
down, and a call has returned when its tasks are gone.

`Machine.run_induction` is the invariant rule, for facts that hold at every point of
every run.
-/

namespace OcamlTemporal.Lib

universe u v

/-- One step of a machine: the task on top of the stack and the store give the
tasks to run in its place and the new store. -/
structure Machine (T : Type u) (S : Type v) where
  step : T → S → List T × S

/-- A configuration: the tasks still to run, topmost first, and the store. -/
structure Machine.Config (T : Type u) (S : Type v) where
  stack : List T
  store : S

namespace Machine

variable {T : Type u} {S : Type v} (M : Machine T S)

/-- The configuration after one step; a configuration with nothing to run
stays as it is. -/
def next : Config T S → Config T S
  | ⟨[], s⟩ => ⟨[], s⟩
  | ⟨t :: ts, s⟩ => ⟨(M.step t s).1 ++ ts, (M.step t s).2⟩

def run : Nat → Config T S → Config T S
  | 0, c => c
  | n + 1, c => run n (M.next c)

/-- **Invariant rule.** What holds of a configuration and is kept by every step
holds after any number of steps. -/
theorem run_induction {I : Config T S → Prop} (hstep : ∀ c, I c → I (M.next c))
    {c : Config T S} (hc : I c) (n : Nat) : I (M.run n c) := by
  induction n generalizing c with
  | zero => exact hc
  | succ n ih => exact ih (hstep c hc)

end Machine

end OcamlTemporal.Lib
