import OcamlTemporal.Runtime.Random
import OcamlTemporal.Runtime.Scheduler

/-!
# OcamlTemporal.Runtime.Context

The state one workflow execution shares between its SDK operations
(`lib/runtime/workflow_context_store.ml`) and the execution record around it
(`lib/runtime/execution.ml`). This module holds the records, and the part of the
store that does not reach the scheduler: sequence allocation, the command
buffer, patches and randomness.

The operation tables are partial functions from sequence numbers; the flags the
source keeps in the closures of a handle are the handle tables, which survive
the removal of an operation.

**`trace`** and **`outputs`** are ghost fields: no function reads them.
-/

namespace OcamlTemporal

/-- A pending activity: its future and the decoder of its result. -/
structure Activity (P : Program) where
  future : Nat
  decode : Payload → P.Code

/-- What a handle remembers about its activity. -/
structure ActivityHandle where
  isLocal : Bool
  cancellationRequested : Bool
  terminal : Bool
  deriving DecidableEq, Repr

/-- The language-owned retry phase of one local activity. -/
inductive Backoff
  | idle
  | timerQueued
  | timer (seq : Nat)
  | retryQueued
  deriving DecidableEq, Repr

/-- The request and retry state of one pending local activity. -/
structure LocalActivity where
  request : ScheduledLocalActivity
  attempt : Int
  originalScheduleTime : Option Timestamp
  backoff : Backoff
  deriving DecidableEq, Repr

/-- A pending child workflow with its result future and its start-stage future. -/
structure Child (P : Program) where
  future : Nat
  started : Nat
  decode : Payload → P.Code
  startRunId : Option String

/-- What a handle remembers about its child workflow. -/
structure ChildHandle where
  cancellationRequested : Bool
  terminal : Bool
  deriving DecidableEq, Repr

/-- The Core job kind an external operation waits for. -/
inductive ExternalOperation
  | signal
  | cancel
  deriving DecidableEq, Repr

structure External where
  operation : ExternalOperation
  future : Nat
  deriving DecidableEq, Repr

/-- What firing a pending timer does: settle a sleep, or retry local activity
`seq`. -/
inductive Timer
  | sleep (f : Nat)
  | backoff (seq : Nat) (attempt : Int) (originalScheduleTime : Option Timestamp)
  deriving DecidableEq, Repr

inductive PatchMode
  | active
  | deprecated
  deriving DecidableEq, Repr

/-- Replay evidence and mode of one patch ID. -/
structure PatchState where
  decision : Bool
  mode : Option PatchMode
  markerReported : Bool
  deriving DecidableEq, Repr

/-- What the context did, for the statements about whole runs. -/
inductive ContextEvent
  | allocated (seq : Nat)
  -- a buffered command; `owner` is the local activity a retry timer's command belongs to
  | emitted (command : Command) (owner : Option Nat)
  -- the resolver of operation `seq` was invoked
  | resolverInvoked (seq : Nat)
  -- the start-stage resolver of child `seq` was invoked
  | startResolverInvoked (seq : Nat)
  -- Core's backoff job for local activity `seq` was accepted
  | backoffAccepted (seq : Nat)
  -- the retry timer of local activity `seq` fired
  | backoffFired (seq timer : Nat)
  -- local activity `seq` was cancelled in the given retry phase
  | backoffCancelled (seq : Nat) (phase : Backoff)
  -- the implementation of an update was called
  | updateBody (protocolInstanceId : String)
  | shutDown
  deriving DecidableEq

/-- State shared by the SDK operations of one execution. -/
structure Context (P : Program) where
  nextSequence : Nat
  activities : Nat → Option (Activity P)
  activityHandles : Nat → Option ActivityHandle
  localActivities : Nat → Option LocalActivity
  childWorkflows : Nat → Option (Child P)
  childHandles : Nat → Option ChildHandle
  externalWorkflows : Nat → Option External
  timers : Nat → Option Timer
  -- the future of each `start_timer` handle
  timerHandles : Nat → Option Nat
  patches : String → Option PatchState
  randomState : BitVec 64
  randomnessDisabled : Bool
  -- `query_read_binding`: a query handler is running
  queryRead : Bool
  activationIsReplaying : Bool
  -- registered condition waiters with their predicates, oldest first
  conditions : List (Nat × P.Code)
  conditionsClosed : Bool
  commandsRev : List Command
  isSealed : Bool
  -- the command lists handed to the callers of `activate`
  outputs : List (List Command)
  trace : List ContextEvent

/-- One workflow execution with the memory of its user code. -/
structure State (P : Program) where
  sched : Scheduler P
  ctx : Context P
  memory : P.Mem
  started : Bool
  terminal : Bool
  evicted : Bool
  taskFailure : Option Error
  pendingUpdates : List String
  -- the exception that ended the last activation, if one did
  escaped : Option Exn

namespace Context

variable {P : Program}

def create (P : Program) : Context P where
  nextSequence := 0
  activities := fun _ => none
  activityHandles := fun _ => none
  localActivities := fun _ => none
  childWorkflows := fun _ => none
  childHandles := fun _ => none
  externalWorkflows := fun _ => none
  timers := fun _ => none
  timerHandles := fun _ => none
  patches := fun _ => none
  randomState := P.randomState
  randomnessDisabled := false
  queryRead := false
  activationIsReplaying := false
  conditions := []
  conditionsClosed := false
  commandsRev := []
  isSealed := false
  outputs := []
  trace := []

def record (c : Context P) (e : ContextEvent) : Context P := { c with trace := c.trace ++ [e] }

/-- Reserves the next command number; the first is one. -/
def allocateSequence (c : Context P) : Context P :=
  { c with
    nextSequence := c.nextSequence + 1
    trace := c.trace ++ [.allocated (c.nextSequence + 1)] }

/-- Whether the buffer takes a command. After the seal only query results are
taken: discontinued fibers cannot append durable commands, while Core can still
query the final state. -/
def takes (c : Context P) (command : Command) : Bool := command.isQueryResult || !c.isSealed

/-- Buffers a command, if the context still takes it. -/
def emit (c : Context P) (command : Command) (owner : Option Nat := none) : Context P :=
  { c with
    commandsRev := if c.takes command then command :: c.commandsRev else c.commandsRev
    trace := if c.takes command then c.trace ++ [.emitted command owner] else c.trace }

def terminate (c : Context P) (command : Command) : Context P :=
  { c.emit command with isSealed := true }

def hasBufferedTerminal (c : Context P) : Bool := c.commandsRev.any Command.isTerminal

/-- Hands the buffered commands to the caller of `activate`. -/
def takeCommands (c : Context P) : Context P :=
  { c with commandsRev := [], outputs := c.outputs ++ [c.commandsRev.reverse] }

/-- Drops the buffered commands, as a failed task does. -/
def discardCommands (c : Context P) : Context P := { c with commandsRev := [] }

def notifyHasPatch (c : Context P) (patchId : String) : Context P :=
  let state : PatchState :=
    match c.patches patchId with
    | some state =>
      match state.mode with
      | some _ => { state with markerReported := true }
      | none => { state with decision := true, markerReported := true }
    | none => { decision := true, mode := none, markerReported := true }
  { c with patches := Function.update c.patches patchId (some state) }

/-- The patch state a call finds, fresh for an ID not met before. -/
def patchState (c : Context P) (patchId : String) : PatchState :=
  (c.patches patchId).getD
    { decision := !c.activationIsReplaying, mode := none, markerReported := false }

def patchMarkers (state : PatchState) (patchId : String) (mode : PatchMode) : List Command :=
  if state.decision || state.markerReported then
    [.setPatchMarker patchId (mode == .deprecated)]
  else []

/-- The exception of an ID called in both modes. -/
def mixedPatchModes : Exn :=
  .invalidArgument
    "Temporal workflow patch ID cannot be both active and deprecated in one execution"

/-- Evaluates one patch operation: the decision of the ID, or the exception. -/
def callPatchApi (c : Context P) (patchId : String) (mode : PatchMode) :
    Context P × Except Exn Bool :=
  if c.isSealed then
    (c, .error (.invalidArgument
      "Temporal workflow patch API used after workflow execution ended"))
  else
    let state := c.patchState patchId
    if state.mode = none ∨ state.mode = some mode then
      let markers := patchMarkers state patchId mode
      ({ c with
          patches := Function.update c.patches patchId (some { state with mode := some mode })
          commandsRev := markers ++ c.commandsRev
          trace := c.trace ++ markers.map (.emitted · none) },
        .ok state.decision)
    else (c, .error mixedPatchModes)

def updateRandomSeed (c : Context P) (seed : String) : Except Exn (Context P) :=
  if c.isSealed then .error (.invalidArgument "cannot update randomness after shutdown")
  else
    match Random.seedOfDecimal seed with
    | none => .error (.invalidArgument "randomness seed must be an unsigned decimal string")
    | some randomState => .ok { c with randomState }

/-- Draws from the stream unless it is closed to the caller or the argument is
out of range (`invalid`). -/
def drawRandom {α : Type} (c : Context P) (invalid : Option String)
    (draw : BitVec 64 → BitVec 64 × α) : Context P × Except Error α :=
  if c.isSealed then
    (c, .error (.defect "workflow randomness used after workflow execution ended"))
  else if c.randomnessDisabled then
    (c, .error (.defect "workflow randomness is unavailable in a read-only update validator"))
  else
    match invalid with
    | some message => (c, .error (.defect message))
    | none =>
      let drawn := draw c.randomState
      ({ c with randomState := drawn.1 }, .ok drawn.2)

def randomInt (c : Context P) (bound : Int) : Context P × Except Error Nat :=
  c.drawRandom (if bound ≤ 0 then some "workflow random_int bound must be positive" else none)
    (Random.int bound.toNat)

def randomFloat (c : Context P) : Context P × Except Error Nat := c.drawRandom none Random.float

def randomBytes (c : Context P) (length : Int) : Context P × Except Error (List UInt8) :=
  c.drawRandom
    (if length < 0 ∨ (Random.maxBytes : Int) < length then
      some "workflow random_bytes length must be between 0 and 65536" else none)
    (Random.bytes length.toNat)

/-- Buffers a search-attribute merge; an empty one buffers nothing. -/
def upsertSearchAttributes (c : Context P) (searchAttributes : List (String × Payload)) :
    Context P × Except Exn Unit :=
  if c.isSealed then
    (c, .error (.invalidArgument
      "Temporal workflow search attributes used after workflow execution ended"))
  else
    match searchAttributes with
    | [] => (c, .ok ())
    | _ :: _ => (c.emit (.upsertSearchAttributes searchAttributes), .ok ())

def addCondition (c : Context P) (f : Nat) (predicate : P.Code) : Context P :=
  { c with conditions := c.conditions ++ [(f, predicate)] }

def hasCondition (c : Context P) (f : Nat) : Bool := c.conditions.any (·.1 = f)

def removeCondition (c : Context P) (f : Nat) : Context P :=
  { c with conditions := c.conditions.filter (·.1 ≠ f) }

/-- The head of `shutdown`: seals the context and closes the condition store. -/
def close (c : Context P) : Context P :=
  { c with isSealed := true, conditions := [], conditionsClosed := true }

/-- The tail of `shutdown`: clears the operation tables. -/
def clearTables (c : Context P) : Context P :=
  { c with
    activities := fun _ => none
    localActivities := fun _ => none
    childWorkflows := fun _ => none
    externalWorkflows := fun _ => none
    timers := fun _ => none
    patches := fun _ => none
    trace := c.trace ++ [.shutDown] }

end Context

namespace State

variable {P : Program}

def start (P : Program) : State P where
  sched := Scheduler.create
  ctx := Context.create P
  memory := P.memory
  started := false
  terminal := false
  evicted := false
  taskFailure := none
  pendingUpdates := []
  escaped := none

/-- `current ()` names this execution: `with_context` is in force exactly while
the scheduler runs and while a query handler does. -/
def current (s : State P) : Bool := s.sched.running || s.ctx.queryRead

def inOwnerTurn (s : State P) : Bool :=
  !s.ctx.queryRead && s.sched.running && !s.ctx.isSealed && s.sched.active

end State

end OcamlTemporal
