import OcamlTemporal.Runtime.Execution

/-!
# OcamlTemporal.Runtime.Script

Concrete workflow programs as trees of operations, and the states a list of
inputs leads to. **`Script.program`** turns scripts into a `Program` without
mutable memory; **`replay`** runs an execution through a list of inputs and gives
up when one of them has not returned within the given number of steps.
-/

namespace OcamlTemporal

/-- Code that reacts to the replies of its operations. -/
inductive Script
  | ret (result : Result Unit)
  | raise (exn : Exn)
  | perform (op : Op Unit Script) (k : Resp Unit → Script)

namespace Script

def done : Script := .ret (.ok .unit)

/-- Performs an operation and goes on whatever the reply. -/
def then_ (op : Op Unit Script) (next : Script) : Script := .perform op fun _ => next

/-- Performs an operation and uses the future it starts. -/
def withFuture (op : Op Unit Script) (k : Nat → Script) : Script :=
  .perform op fun
    | .ok (.operation _ f) | .ok (.future f) | .ok (.child _ f _) => k f
    | _ => done

def view : Script → Node Unit Script
  | ret result => .ret result
  | raise x => .raise x
  | perform op k => .perform op k

def encode : Ret Unit → Script := fun _ => .ret (.ok (.payload .unitNull))

def program (root : Script) (signals queries : String → Option Script)
    (updates : String → Option (UpdateHandler Unit Script)) : Program where
  Val := Unit
  Mem := Unit
  Code := Script
  view code _ := ((), code.view)
  memory := ()
  printexc
    | .schedulerShutdown => "Scheduler_shutdown"
    | .workflowAborted => "Workflow_aborted"
    | .unhandledEffect => "Effect.Unhandled"
    | .invalidArgument message => "Invalid_argument(" ++ message ++ ")"
    | .user name => name
  implementation := some root
  encodeOutput := encode
  signalHandlers name := (signals name).map fun code _ _ _ => code
  queryHandlers name := (queries name).map fun code _ _ => code
  updateHandlers := updates
  taskQueue := "default"
  randomState := 1

def unregistered {α : Type} : String → Option α := fun _ => none

end Script

variable {P : Program}

/-- The state after a list of inputs, if each returns within `fuel` steps. -/
def replay (fuel : Nat) : List Input → State P → Option (State P)
  | [], s => some s
  | i :: is, s =>
    match (machine P).run fuel ⟨(i.apply s).1, (i.apply s).2⟩ with
    | ⟨[], s'⟩ => replay fuel is s'
    | _ => none

theorem Reachable.run {c : Config P} (hc : Reachable P c) (n : Nat) :
    Reachable P ((machine P).run n c) :=
  (machine P).run_induction (fun _ h => .step h) hc n

theorem Reachable.replay {fuel : Nat} {inputs : List Input} {s s' : State P}
    (hs : Reachable P ⟨[], s⟩) (h : OcamlTemporal.replay fuel inputs s = some s') :
    Reachable P ⟨[], s'⟩ := by
  induction inputs generalizing s with
  | nil => exact Option.some.inj h ▸ hs
  | cons i is ih =>
    simp only [OcamlTemporal.replay] at h
    split at h
    · next s'' heq => exact ih (heq ▸ (hs.input i).run fuel) h
    · cases h

/-- The state a new execution reaches through a list of inputs. -/
def replayed (P : Program) (fuel : Nat) (inputs : List Input)
    (h : (replay fuel inputs (State.start P)).isSome = true) : State P :=
  (replay fuel inputs (State.start P)).get h

theorem reachable_replayed {fuel : Nat} {inputs : List Input}
    (h : (replay fuel inputs (State.start P)).isSome = true) :
    Reachable P ⟨[], replayed P fuel inputs h⟩ :=
  Reachable.start.replay (Option.some_get h).symm

/-! ### Runs with a log -/

section Logged

variable {E : Type} (observe : State P → Task P → List E)

/-- Up to `fuel` steps, with what is observed of each. -/
def runLogged : Nat → List E → Config P → List E × Config P
  | 0, log, c => (log, c)
  | _ + 1, log, ⟨[], s⟩ => (log, ⟨[], s⟩)
  | fuel + 1, log, ⟨t :: ts, s⟩ =>
    runLogged fuel (log ++ observe s t) ((machine P).next ⟨t :: ts, s⟩)

/-- The log and the state after a list of inputs, each run for `fuel` steps. -/
def replayLogged (fuel : Nat) : List Input → List E → State P → Option (List E × State P)
  | [], log, s => some (log, s)
  | i :: is, log, s =>
    match runLogged observe fuel log ⟨(i.apply s).1, (i.apply s).2⟩ with
    | (log', ⟨[], s'⟩) => replayLogged fuel is log' s'
    | _ => none

variable {observe}

theorem Logged.run {log : List E} {c : Config P} (h : Logged observe log c) (fuel : Nat) :
    Logged observe (runLogged observe fuel log c).1 (runLogged observe fuel log c).2 := by
  induction fuel generalizing log c with
  | zero => exact h
  | succ fuel ih =>
    obtain ⟨stack, s⟩ := c
    cases stack with
    | nil => exact h
    | cons t ts => exact ih h.step

theorem Logged.replay {fuel : Nat} {inputs : List Input} {log log' : List E} {s s' : State P}
    (hs : Logged observe log ⟨[], s⟩)
    (h : replayLogged observe fuel inputs log s = some (log', s')) :
    Logged observe log' ⟨[], s'⟩ := by
  induction inputs generalizing log s with
  | nil =>
    cases h
    exact hs
  | cons i is ih =>
    simp only [replayLogged] at h
    split at h
    · next log'' s'' heq =>
      have hrun := (hs.input i).run fuel
      rw [heq] at hrun
      exact ih hrun h
    · cases h

end Logged

end OcamlTemporal
