import Mathlib.Data.List.Basic

/-!
# OcamlTemporal.Worker.Watchdog

The watchdog for activations that do not yield (`lib/runtime/native_worker_watchdog.ml`). A sample
is the epoch of the activation that is running workflow code, or none; an exception of the probe
counts as none. What the loop reports goes to `abandon_activation`, which is part of
`Worker.Adapter`.
-/

namespace OcamlTemporal.Worker.Watchdog

/-- `observed` is the epoch of the last sample, `elapsedMs` how long it has been seen continuously,
`fired` the last epoch that was reported. -/
structure State where
  observed : Option Nat
  elapsedMs : Nat
  fired : Option Nat
  deriving DecidableEq, Repr

def initial : State := ⟨none, 0, none⟩

variable (tickMs deadlineMs : Nat)

/-- One sample: the new state, and what is reported. -/
def step (state : State) (running : Option Nat) : State × Option (Nat × Nat) :=
  match running with
  | none => ({ state with observed := none, elapsedMs := 0 }, none)
  | some epoch =>
    let elapsedMs := if state.observed = some epoch then state.elapsedMs + tickMs else 0
    let alreadyFired := state.fired = some epoch
    let state := { state with observed := some epoch, elapsedMs }
    if deadlineMs ≤ elapsedMs ∧ ¬ alreadyFired then
      ({ state with fired := some epoch }, some (epoch, elapsedMs))
    else (state, none)

/-- The loop: the state after the samples, and the reports in their order. -/
def run (samples : List (Option Nat)) : State × List (Nat × Nat) :=
  samples.foldl (fun (state, reports) running =>
    let (state, fire) := step tickMs deadlineMs state running
    (state, reports ++ fire.toList)) (initial, [])

end OcamlTemporal.Worker.Watchdog
