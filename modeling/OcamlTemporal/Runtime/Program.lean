import OcamlTemporal.Runtime.Activation

/-!
# OcamlTemporal.Runtime.Program

Workflow programs as the runtime sees them. User code is an arbitrary
transition system: **`Program.view`** runs a piece of code up to its next
interaction with the runtime, which is a returned result, a raised exception or
an SDK operation with the continuation that receives its reply. Everything the
code computes on its own, its mutable variables and its workflow locals included,
is hidden in `Mem`, so a theorem about every program is a theorem about every
OCaml workflow, handler, codec, cleanup handler and catch-all.

The public wrappers that validate arguments, encode payloads or combine futures
touch the runtime only through these operations and count as code too.
-/

namespace OcamlTemporal

/-- Exceptions visible to workflow code. The first two are the scheduler's
control flow, `unhandledEffect` is `Effect.Unhandled`. -/
inductive Exn
  | schedulerShutdown
  | workflowAborted
  | unhandledEffect
  | invalidArgument (message : String)
  | user (name : String)
  deriving DecidableEq, Repr

/-- Values exchanged between code and runtime. Futures and operations are named
by their index; the source's handles are closures over the same facts. -/
inductive Ret (Val : Type)
  | unit
  | bool (value : Bool)
  | nat (value : Nat)
  | bytes (value : List UInt8)
  | text (value : String)
  | payload (value : Payload)
  | value (value : Val)
  | future (f : Nat)
  | operation (seq f : Nat)
  | child (seq f started : Nat)
  | subscription (id : Nat)
  deriving DecidableEq

namespace Ret

variable {Val : Type}

/-- The payload an encoder returned. The source is typed, so the last case is
never met. -/
def asPayload : Ret Val → Payload
  | payload p => p
  | _ => Payload.unitNull

def asBool : Ret Val → Bool
  | bool b => b
  | _ => false

end Ret

abbrev Result (Val : Type) := Except Error (Ret Val)

/-- The reply to an operation. `pending` is `peek` on an unsettled future. -/
inductive Resp (Val : Type)
  | ok (value : Ret Val)
  | error (error : Error)
  | raised (exn : Exn)
  | pending
  deriving DecidableEq

def Resp.ofResult {Val : Type} : Result Val → Resp Val
  | .ok value => .ok value
  | .error e => .error e

/-- The arguments of `schedule_activity`; absent options keep their default in
the context store. -/
structure ActivityRequest where
  name : String
  input : List Payload
  activityId : Option String := none
  taskQueue : Option String := none
  scheduleToCloseTimeout : Option Int := none
  scheduleToStartTimeout : Option Int := none
  startToCloseTimeout : Option Int := none
  heartbeatTimeout : Option Int := none
  retryPolicy : Option RetryPolicy := none
  priority : Option Priority := none
  cancellationType : ActivityCancellationType := .tryCancel
  doNotEagerlyExecute : Bool := false
  deriving DecidableEq, Repr

/-- The operations through which code reaches the runtime. -/
inductive Op (Val Code : Type)
  | await (f : Nat)
  | peek (f : Nat)
  | subscribe (f : Nat) (observer : Result Val → Code)
  | unsubscribe (id : Nat)
  -- the callback delivery of a derived future, through its owner's queue
  | enqueue (callback : Code)
  -- a future that is ready at once
  | resolved
  | createSignal
  -- resolves a signal future: a scope's cancellation or an await gate
  | signal (f : Nat)
  -- the liveness checks at the head of `wait_until`
  | conditionGuard
  | registerCondition (predicate : Code)
  | startTimer (milliseconds : Int)
  | cancelTimer (seq : Nat)
  | scheduleActivity (request : ActivityRequest) (decode : Payload → Code)
  | scheduleLocalActivity (request : ActivityRequest) (decode : Payload → Code)
  | cancelActivity (seq : Nat)
  | startChildWorkflow (request : StartedChildWorkflow) (decode : Payload → Code)
  | cancelChildWorkflow (seq : Nat) (reason : String)
  | signalExternalWorkflow (workflowId runId signalName : String) (input : List Payload)
      (childWorkflowOnly : Bool) (headers : List (String × Payload))
  | cancelExternalWorkflow (workflowId runId reason : String)
  | patched (patchId : String)
  | deprecatePatch (patchId : String)
  | upsertSearchAttributes (searchAttributes : List (String × Payload))
  | randomInt (bound : Int)
  | randomFloat
  | randomBytes (length : Int)
  | continueAsNew (workflowType : String) (input : List Payload)
  -- `continue_as_new` whose input encoder returned an error
  | continueAsNewFailed (error : Error)
  | inOwnerTurn
  | isReplaying

/-- The next interaction of a piece of code. -/
inductive Node (Val Code : Type)
  | ret (result : Result Val)
  | raise (exn : Exn)
  | perform (op : Op Val Code) (k : Resp Val → Code)

/-- One registered update: `Update.Handler.t` with its codecs. -/
structure UpdateHandler (Val Code : Type) where
  decodeInput : Payload → Code
  validator : Option (Ret Val → Code)
  implementation : Ret Val → Code
  encodeOutput : Ret Val → Code

/-- A workflow program with its handlers, `Execution.start`'s arguments. -/
structure Program where
  Val : Type
  Mem : Type
  Code : Type
  view : Code → Mem → Mem × Node Val Code
  -- memory when the execution is created
  memory : Mem
  -- `Printexc.to_string`
  printexc : Exn → String
  -- the workflow implementation applied to its input; a remote definition has none
  implementation : Option Code
  encodeOutput : Ret Val → Code
  signalHandlers : String → Option (List Payload → String → List (String × Payload) → Code)
  queryHandlers : String → Option (List Payload → List (String × Payload) → Code)
  updateHandlers : String → Option (UpdateHandler Val Code)
  taskQueue : String
  -- the parsed `randomness_seed`
  randomState : BitVec 64

/-- Where a piece of running code returns to. The `update` frames are the phases
of `Update.Handler.dispatch`: before **`updateRun`** the update is not yet
acknowledged. -/
inductive Frame (P : Program)
  | root
  | rootEncode
  | signal
  | updateDecode (u : Update) (h : UpdateHandler P.Val P.Code)
  /-- `restore` is the randomness flag `with_randomness_disabled` puts back, when
  the validator started inside the workflow context. -/
  | updateValidate (u : Update) (h : UpdateHandler P.Val P.Code) (input : Ret P.Val)
      (restore : Option Bool)
  | updateRun (u : Update) (h : UpdateHandler P.Val P.Code)
  | updateEncode (u : Update)
  | callback
  | predicate (f : Nat)
  | query (queryId : String) (restore : Bool)
  | decodeActivity (f : Nat)
  | decodeChild (f : Nat)

/-- Fibers run under the scheduler's effect handler; callbacks, predicates,
queries and decoders do not. -/
def Frame.handled {P : Program} : Frame P → Bool
  | root | rootEncode | signal => true
  | updateDecode _ _ | updateValidate _ _ _ _ | updateRun _ _ | updateEncode _ => true
  | callback | predicate _ | query _ _ | decodeActivity _ | decodeChild _ => false

/-- The two control exceptions the scheduler swallows at the end of a fiber. -/
def Exn.isControl : Exn → Bool
  | schedulerShutdown | workflowAborted => true
  | _ => false

/-- A captured one-shot continuation. -/
structure Cont (P : Program) where
  resume : Resp P.Val → P.Code
  frame : Frame P

end OcamlTemporal
