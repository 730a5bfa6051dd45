import OcamlTemporal.Runtime.Tables

/-!
# OcamlTemporal.Runtime.Operations

The operations that join the operation tables with the scheduler's futures
(`lib/runtime/workflow_context_store.ml`), and **`perform`**, which runs one
operation of workflow code. Each definition follows the order of its source:
which check comes first, and what has already changed when one fails.
-/

namespace OcamlTemporal

namespace State

variable {P : Program}

/-- The error of a context-store future used outside its scheduler. -/
def outsideError : Error := .defect "future awaited outside its workflow scheduler"

/-- Invokes the resolver of a future the context store created. -/
def settle (s : State P) (f : Nat) (result : Result P.Val) : State P × Resp P.Val :=
  match s.sched.resolve f result with
  | some sched => ({ s with sched }, .ok .unit)
  | none => (s, .raised Scheduler.resolvedTwice)

/-! ### Starting operations -/

/-- The common shape of every start: reserve a sequence, create the future, save
the entry, emit the command. After shutdown the sequence is spent and the start
raises. -/
def startOperation (s : State P) (save : Context P → Nat → Nat → Context P)
    (command : Nat → Command) (reply : Nat → Nat → Ret P.Val) : State P × Resp P.Val :=
  let ctx := s.ctx.allocateSequence
  let seq := ctx.nextSequence
  match s.sched.promise outsideError false with
  | none => ({ s with ctx }, .raised Scheduler.shutDown)
  | some (sched, f) =>
    ({ s with sched, ctx := (save ctx seq f).emit (command seq) }, .ok (reply seq f))

def startTimer (s : State P) (milliseconds : Int) : State P × Resp P.Val :=
  s.startOperation Context.saveTimer (.startTimer · milliseconds) .operation

/-- The activity ID used when the request names none. -/
def defaultActivityId (seq : Nat) : String := "ocaml-activity-" ++ toString seq

/-- The close timeout defaults to one minute when the request has neither. -/
def startToClose (r : ActivityRequest) : Option Int :=
  match r.scheduleToCloseTimeout, r.startToCloseTimeout with
  | none, none => some 60000
  | _, value => value

def remoteRequest (P : Program) (r : ActivityRequest) (seq : Nat) : ScheduledActivity where
  activityId := r.activityId.getD (defaultActivityId seq)
  activityType := r.name
  taskQueue := r.taskQueue.getD P.taskQueue
  arguments := r.input
  scheduleToCloseTimeout := r.scheduleToCloseTimeout
  scheduleToStartTimeout := r.scheduleToStartTimeout
  startToCloseTimeout := startToClose r
  heartbeatTimeout := r.heartbeatTimeout
  retryPolicy := r.retryPolicy
  priority := r.priority
  cancellationType := r.cancellationType
  doNotEagerlyExecute := r.doNotEagerlyExecute

/-- The command fields of a local activity, kept for its retries. -/
def localRequest (r : ActivityRequest) (seq : Nat) : ScheduledLocalActivity where
  activityId := r.activityId.getD (defaultActivityId seq)
  activityType := r.name
  arguments := r.input
  scheduleToCloseTimeout := r.scheduleToCloseTimeout
  scheduleToStartTimeout := r.scheduleToStartTimeout
  startToCloseTimeout := startToClose r
  retryPolicy := r.retryPolicy
  localRetryThreshold := none
  cancellationType := r.cancellationType

def scheduleActivity (s : State P) (r : ActivityRequest) (decode : Payload → P.Code) :
    State P × Resp P.Val :=
  s.startOperation (fun c seq f => c.saveActivity seq f decode none)
    (fun seq => .scheduleActivity seq (remoteRequest P r seq)) .operation

def scheduleLocalActivity (s : State P) (r : ActivityRequest) (decode : Payload → P.Code) :
    State P × Resp P.Val :=
  s.startOperation (fun c seq f => c.saveActivity seq f decode (some (localRequest r seq)))
    (fun seq => .scheduleLocalActivity seq 1 none (localRequest r seq)) .operation

def signalExternalWorkflow (s : State P) (workflowId runId signalName : String)
    (input : List Payload) (childWorkflowOnly : Bool) (headers : List (String × Payload)) :
    State P × Resp P.Val :=
  s.startOperation (·.saveExternal .signal)
    (fun seq => .signalExternalWorkflow seq workflowId runId signalName input childWorkflowOnly
      headers)
    fun _ f => .future f

def cancelExternalWorkflow (s : State P) (workflowId runId reason : String) :
    State P × Resp P.Val :=
  s.startOperation (·.saveExternal .cancel)
    (fun seq => .requestCancelExternalWorkflow seq workflowId runId reason)
    fun _ f => .future f

/-- `start_child_workflow`, with a result future and a start-stage future. -/
def startChildWorkflow (s : State P) (r : StartedChildWorkflow) (decode : Payload → P.Code) :
    State P × Resp P.Val :=
  let ctx := s.ctx.allocateSequence
  let seq := ctx.nextSequence
  match s.sched.promise outsideError false with
  | none => ({ s with ctx }, .raised Scheduler.shutDown)
  | some (sched, f) =>
    match sched.promise outsideError false with
    | none => ({ s with sched, ctx }, .raised Scheduler.shutDown)
    | some (sched, started) =>
      ({ s with
          sched
          ctx := (ctx.saveChild seq f started decode).emit (.startChildWorkflow seq r) },
        .ok (.child seq f started))

/-! ### Cancelling operations -/

/-- The `cancel` closure of a timer. Once the context is sealed it does nothing. -/
def cancelTimer (s : State P) (seq : Nat) : State P × Resp P.Val :=
  match s.current, s.ctx.timerHandles seq with
  | true, some f =>
    if s.ctx.isSealed then (s, .ok .unit)
    else
      match s.ctx.timers seq with
      | none => (s, .ok .unit)
      | some _ =>
        settle { s with ctx := (s.ctx.removeTimer seq).emit (.cancelTimer seq) } f
          (.error { category := .cancelled, message := "workflow timer cancelled" })
  | _, _ => (s, .error (.defect "timer cancellation used outside its workflow"))

def unknownActivity (seq : Nat) : Error :=
  .bridge ("unknown or duplicate activity sequence " ++ toString seq)

/-- `resolve_activity` with an error, which needs no decoder. -/
def failActivity (s : State P) (seq : Nat) (error : Error) : State P × Resp P.Val :=
  match s.ctx.activities seq with
  | none => (s, .error (unknownActivity seq))
  | some a => settle { s with ctx := s.ctx.removeActivity seq } a.future (.error error)

/-- Cancels a language-owned retry delay and settles the activity. -/
def cancelLocalActivityBackoff (s : State P) (seq : Nat) (la : LocalActivity) :
    State P × Resp P.Val :=
  failActivity { s with ctx := s.ctx.leaveBackoff seq la } seq
    { category := .cancelled, message := "local activity cancelled during retry backoff" }

def cancelActivity (s : State P) (seq : Nat) : State P × Resp P.Val :=
  match s.current, s.ctx.activityHandles seq with
  | true, some handle =>
    match s.ctx.activities seq with
    | none =>
      if !handle.terminal && !handle.cancellationRequested then
        (s, .error (.bridge ("unknown or completed activity sequence " ++ toString seq)))
      else (s, .ok .unit)
    | some _ =>
      if handle.cancellationRequested then (s, .ok .unit)
      else
        let s : State P := { s with ctx := s.ctx.markCancelled seq handle }
        let command : Command :=
          if handle.isLocal then .requestCancelLocalActivity seq else .requestCancelActivity seq
        let request : State P × Resp P.Val := ({ s with ctx := s.ctx.emit command }, .ok .unit)
        match s.ctx.localActivities seq with
        | some la =>
          if la.backoff = .idle then request
          -- Core owns no attempt of an activity in backoff.
          else s.cancelLocalActivityBackoff seq la
        | none => request
  | _, _ => (s, .error (.defect "activity cancellation used outside its workflow"))

def childReasonError (reason : String) : Option String :=
  if reason = "" then some "child cancellation reason must not be empty"
  else if reason.toList.contains '\x00' then some "child cancellation reason must not contain NUL"
  else if 65536 < reason.utf8ByteSize then some "child cancellation reason exceeds 65536 bytes"
  else none

def cancelChildWorkflow (s : State P) (seq : Nat) (reason : String) : State P × Resp P.Val :=
  match s.current, s.ctx.childHandles seq with
  | true, some handle =>
    match childReasonError reason with
    | some message => (s, .error (.defect message))
    | none =>
      match s.ctx.childWorkflows seq with
      | none =>
        if !handle.terminal && !handle.cancellationRequested then
          (s, .error (.bridge
            ("unknown or completed child workflow sequence " ++ toString seq)))
        else (s, .ok .unit)
      | some _ =>
        if handle.cancellationRequested then (s, .ok .unit)
        else ({ s with ctx := s.ctx.cancelChild seq reason handle }, .ok .unit)
  | _, _ => (s, .error (.defect "child workflow cancellation used outside its workflow"))

end State

/-! ### Running one operation -/

/-- The outcome of an operation: a reply, or one of the two private effects. -/
inductive Performed (P : Program)
  | reply (s : State P) (resp : Resp P.Val)
  -- `Await` on a pending future
  | suspend (f : Nat)
  -- `Abort_workflow`, after the terminal command was buffered
  | abort (s : State P)

namespace Performed

variable {P : Program}

def ofReply (r : State P × Resp P.Val) : Performed P := .reply r.1 r.2

/-- An operation that needs the current workflow context and otherwise returns
an already failed value. -/
def inContext (s : State P) (message : String) (r : State P × Resp P.Val) : Performed P :=
  if s.current then ofReply r else .reply s (.error (.defect message))

/-- The reply of an operation that raises or returns. -/
def ofExcept {α : Type} (s : State P) (value : α → Ret P.Val)
    (r : Context P × Except Exn α) : State P × Resp P.Val :=
  ({ s with ctx := r.1 }, match r.2 with | .ok a => .ok (value a) | .error x => .raised x)

/-- The reply of an operation that fails with a typed error or returns. -/
def ofDraw {α : Type} (s : State P) (value : α → Ret P.Val)
    (r : Context P × Except Error α) : State P × Resp P.Val :=
  ({ s with ctx := r.1 }, match r.2 with | .ok a => .ok (value a) | .error e => .error e)

/-- An operation that needs the current workflow context and otherwise raises. -/
def orRaise (s : State P) (message : String) (r : Performed P) : Performed P :=
  if s.current then r else .reply s (.raised (.invalidArgument message))

end Performed

namespace State

variable {P : Program}

/-- `Future_store.await`: suspends only in the running, active owner. -/
def await (s : State P) (f : Nat) : Performed P :=
  match s.sched.cellState f with
  | some (.ready result) => .reply s (.ofResult result)
  | some (.pending _ _) =>
    if s.sched.live then .suspend f else .reply s (.error (s.sched.outsideErrorOf f))
  | _ => .reply s (.error (s.sched.outsideErrorOf f))

def peek (s : State P) (f : Nat) : Resp P.Val :=
  match s.sched.cellState f with
  | some (.ready result) => .ofResult result
  | _ => .pending

/-- A scope's cancellation future or an await gate. -/
def createSignal (s : State P) : State P × Resp P.Val :=
  match s.sched.promise outsideError true with
  | none => (s, .raised Scheduler.shutDown)
  | some (sched, f) => ({ s with sched }, .ok (.future f))

/-- Resolves a signal future once, in the owner's live turn only. -/
def signal (s : State P) (f : Nat) : State P × Resp P.Val :=
  if s.sched.live then
    match s.sched.cells[f]? with
    | some c => if c.isPending && c.isSignal then s.settle f (.ok .unit) else (s, .ok .unit)
    | none => (s, .ok .unit)
  else (s, .error (.defect "Temporal.Scope.cancel used outside its owning workflow scheduler"))

/-- The error of a condition wait outside its scheduler. -/
def conditionOwnership : Error :=
  .defect "Temporal condition wait used outside its workflow scheduler"

/-- The checks of `Condition_store.wait_until`, before the predicate runs. -/
def conditionGuard (s : State P) : Resp P.Val :=
  if s.ctx.conditionsClosed then
    .error (.defect "Temporal condition wait used after workflow execution ended")
  else if s.sched.live then .ok .unit
  else .error conditionOwnership

/-- Registers a false predicate and returns the future to wait on. The guard has
passed in this run, so a stopped scheduler is met by no source program. -/
def registerCondition (s : State P) (predicate : P.Code) : State P × Resp P.Val :=
  if s.sched.running then
    match s.sched.promise conditionOwnership false with
    | none => (s, .raised Scheduler.shutDown)
    | some (sched, f) =>
      ({ s with sched, ctx := s.ctx.addCondition f predicate }, .ok (.future f))
  else (s, .error conditionOwnership)

open Performed in
def perform (s : State P) : Op P.Val P.Code → Performed P
  | .await f => s.await f
  | .peek f => .reply s (s.peek f)
  | .subscribe f observer =>
    let r := s.sched.subscribe f observer
    .reply { s with sched := r.1 } (.ok (.subscription r.2))
  | .unsubscribe id => .reply { s with sched := s.sched.unsubscribe id } (.ok .unit)
  | .enqueue code => .reply { s with sched := s.sched.enqueue (.callback code) } (.ok .unit)
  | .resolved =>
    .reply s (if s.current && !s.sched.active then .raised Scheduler.shutDown else .ok .unit)
  | .createSignal =>
    inContext s "Temporal.Scope.create used outside a workflow execution" s.createSignal
  | .signal f => ofReply (s.signal f)
  | .conditionGuard =>
    inContext s "Temporal.Condition.wait_until used outside a workflow execution"
      (s, s.conditionGuard)
  | .registerCondition predicate => ofReply (s.registerCondition predicate)
  | .startTimer milliseconds =>
    inContext s "workflow sleep used outside a workflow execution" (s.startTimer milliseconds)
  | .cancelTimer seq => ofReply (s.cancelTimer seq)
  | .scheduleActivity r decode =>
    inContext s "activity operation used outside a workflow" (s.scheduleActivity r decode)
  | .scheduleLocalActivity r decode =>
    inContext s "activity operation used outside a workflow" (s.scheduleLocalActivity r decode)
  | .cancelActivity seq => ofReply (s.cancelActivity seq)
  | .startChildWorkflow r decode =>
    inContext s "child workflow operation used outside a workflow" (s.startChildWorkflow r decode)
  | .cancelChildWorkflow seq reason => ofReply (s.cancelChildWorkflow seq reason)
  | .signalExternalWorkflow workflowId runId signalName input childOnly headers =>
    inContext s "external workflow signal used outside a workflow execution"
      (s.signalExternalWorkflow workflowId runId signalName input childOnly headers)
  | .cancelExternalWorkflow workflowId runId reason =>
    inContext s "external workflow cancellation used outside a workflow execution"
      (s.cancelExternalWorkflow workflowId runId reason)
  | .patched patchId =>
    orRaise s "Temporal.Workflow.patched used outside a workflow execution"
      (ofReply (ofExcept s .bool (s.ctx.callPatchApi patchId .active)))
  | .deprecatePatch patchId =>
    orRaise s "Temporal.Workflow.deprecate_patch used outside a workflow execution"
      (ofReply (ofExcept s (fun _ => .unit) (s.ctx.callPatchApi patchId .deprecated)))
  | .upsertSearchAttributes attributes =>
    orRaise s "Temporal.Workflow.upsert_search_attributes used outside a workflow execution"
      (ofReply (ofExcept s (fun _ => .unit) (s.ctx.upsertSearchAttributes attributes)))
  | .randomInt bound =>
    inContext s "Temporal.Workflow.random_int used outside a workflow execution"
      (ofDraw s .nat (s.ctx.randomInt bound))
  | .randomFloat =>
    inContext s "Temporal.Workflow.random_float used outside a workflow execution"
      (ofDraw s .nat s.ctx.randomFloat)
  | .randomBytes length =>
    inContext s "Temporal.Workflow.random_bytes used outside a workflow execution"
      (ofDraw s .bytes (s.ctx.randomBytes length))
  | .continueAsNew workflowType input =>
    orRaise s "Temporal.Workflow.continue_as_new used outside a workflow execution"
      (.abort { s with ctx := s.ctx.terminate (.continueAsNew workflowType input) })
  | .continueAsNewFailed e =>
    orRaise s "Temporal.Workflow.continue_as_new used outside a workflow execution"
      (.abort { s with ctx := s.ctx.terminate (.failWorkflow e.continueAsNewEncode) })
  | .inOwnerTurn => .reply s (.ok (.bool s.inOwnerTurn))
  | .isReplaying => .reply s (.ok (.bool (s.current && s.ctx.activationIsReplaying)))

end State

end OcamlTemporal
