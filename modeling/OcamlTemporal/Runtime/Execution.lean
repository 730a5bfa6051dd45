import OcamlTemporal.Lib.StackMachine
import OcamlTemporal.Runtime.Resolutions

/-!
# OcamlTemporal.Runtime.Execution

The activation loop of one workflow execution (`lib/runtime/execution.ml`), the
drain and shutdown loops of its scheduler (`lib/runtime/scheduler.ml`), the
condition recheck (`lib/runtime/condition_store.ml`) and the phases of an update
handler (`lib/public/update.ml`).

User code runs in the middle of all of these: a cleanup handler that a shutdown
discontinues calls operations while the shutdown is half done. The machine is
therefore a **stack of tasks**, one for each OCaml call still to return, and a
step runs the top task up to its next call. Log records are not modelled.
-/

namespace OcamlTemporal

open Lib (Machine)

/-- An OCaml call that has not returned yet. -/
inductive Task (P : Program)
  -- user code, and where its result goes
  | run (code : P.Code) (frame : Frame P)
  -- the loop of `Scheduler.run`
  | drain
  -- `Condition_store.notify` over the rest of its snapshot
  | notify (waiters : List (Nat × P.Code))
  -- back from the idle check: drain again if it queued work
  | afterIdle
  -- the end of `Scheduler.run` and of `run_scheduler`
  | runTail
  -- the teardown loop of `Scheduler.shutdown` over the remaining tokens
  | teardown (futures : List Nat)
  -- the waiters of a closed future that are still to be discontinued
  | discontinue (waiters : List (Cont P))
  -- the end of the teardown loop
  | afterTeardown
  -- the loop of `Scheduler.shutdown` over the queue
  | shutdownDrain
  -- the end of `Workflow_context_store.shutdown`
  | clearTables
  -- the end of `poison_task`
  | discardCommands
  -- the job pass of `activate`
  | jobs (jobs : List Job) (wasStarted queryOnly : Bool)
  -- the end of `activate`
  | activateTail

/-- What a step leaves: the calls it made, then the state. -/
abbrev Outcome (P : Program) := List (Task P) × State P

namespace State

variable {P : Program}

/-! ### Ending a run

A run ends with a terminal command, with a failed task or by eviction. Each shuts the context down,
which discontinues every paused fiber before the tables are cleared. -/

/-- `Workflow_context_store.shutdown`. An inactive scheduler has nothing to tear
down. -/
def contextShutdown (s : State P) : Outcome P :=
  let s : State P := { s with ctx := s.ctx.close }
  if s.sched.active then
    ([.teardown s.sched.teardowns, .afterTeardown, .clearTables],
      { s with sched := s.sched.deactivate })
  else ([.clearTables], s)

/-- Emits the terminal command once and releases every paused fiber. -/
def emitTerminal (s : State P) (command : Command) : Outcome P :=
  if s.terminal then ([], s)
  else if s.ctx.hasBufferedTerminal then ([], s)
  else
    contextShutdown
      { s with terminal := true, ctx := s.ctx.emit command, pendingUpdates := [] }

/-- Fails the task: the command batch is discarded and the generation closed. -/
def poisonTask (s : State P) (e : Error) : Outcome P :=
  match s.taskFailure with
  | some _ => ([], s)
  | none =>
    let r := contextShutdown
      { s with taskFailure := some e, terminal := true, pendingUpdates := [] }
    (r.1 ++ [.discardCommands], r.2)

/-- Fails the task unless the run has already ended. -/
def failTask (s : State P) (e : Error) : Outcome P :=
  if s.taskFailure.isNone && (s.terminal || s.evicted || s.ctx.hasBufferedTerminal) then ([], s)
  else s.poisonTask e

/-- A deliberate failure closes the run, a defect fails the task. -/
def fail (s : State P) (e : Error) : Outcome P :=
  if e.isTaskFailure || s.evicted then s.failTask e
  else if !s.terminal && s.ctx.hasBufferedTerminal then ([], s)
  else s.emitTerminal (.failWorkflow e)

/-- A fiber or callback that ended with an exception. -/
def raiseFiber (s : State P) (x : Exn) : Outcome P :=
  if x.isControl then ([], s) else ([], { s with sched := s.sched.recordFailure x })

/-! ### Updates

An update goes through its validator, is accepted, and then runs its body. The protocol instance
stays in the pending table from the acceptance to the last response. -/

def respond (s : State P) (u : Update) (response : UpdateResponse) : State P :=
  { s with ctx := s.ctx.emit (.updateResponse u.protocolInstanceId response) }

def forgetUpdate (s : State P) (u : Update) : State P :=
  { s with pendingUpdates := s.pendingUpdates.erase u.protocolInstanceId }

/-- A dispatch error: before acceptance only a bridge failure fails the task,
afterwards a defect does too. -/
def updateError (s : State P) (u : Update) (accepted : Bool) (e : Error) : Outcome P :=
  if accepted then
    if e.isTaskFailure && e.category ≠ .codec then s.failTask e
    else ([], (s.forgetUpdate u).respond u (.rejected e))
  else if e.category = .bridge then s.failTask e
  else ([], s.respond u (.rejected e))

/-- Adds the update to the pending table and accepts it; its body starts next. -/
def acknowledged (s : State P) (u : Update) : State P :=
  let s : State P :=
    { s with pendingUpdates := u.protocolInstanceId :: s.pendingUpdates }.respond u .accepted
  { s with ctx := s.ctx.record (.updateBody u.protocolInstanceId) }

/-- `on_validated`, then the implementation. -/
def acknowledge (s : State P) (u : Update) (h : UpdateHandler P.Val P.Code) (input : Ret P.Val) :
    Outcome P :=
  if u.protocolInstanceId ∈ s.pendingUpdates then
    s.updateError u false (.defect ("update validation acknowledgement raised: " ++
      P.printexc (.invalidArgument
        "workflow update protocol instance ID became pending twice")))
  else ([.run (h.implementation input) (.updateRun u h)], s.acknowledged u)

/-- The validator, unless the request is replayed or none is registered. Its
draws from the random stream are refused. -/
def validate (s : State P) (u : Update) (h : UpdateHandler P.Val P.Code) (input : Ret P.Val) :
    Outcome P :=
  match u.runValidator, h.validator with
  | true, some validator =>
    if s.current then
      ([.run (validator input) (.updateValidate u h input (some s.ctx.randomnessDisabled))],
        { s with ctx := { s.ctx with randomnessDisabled := true } })
    else ([.run (validator input) (.updateValidate u h input none)], s)
  | _, _ => s.acknowledge u h input

def validProtocolInstanceId (id : String) : Bool :=
  id ≠ "" && !id.toList.contains '\x00' && id.utf8ByteSize ≤ 65536

/-- The spawned body of an update job, up to the input decoder. -/
def startUpdate (s : State P) (u : Update) : Outcome P :=
  match P.updateHandlers u.name with
  | none => ([], s.respond u (.rejected (.bridge ("unhandled workflow update: " ++ u.name))))
  | some h =>
    if !validProtocolInstanceId u.protocolInstanceId then
      ([], s.respond u (.rejected (.bridge
        "workflow update has an invalid protocol instance ID")))
    else if u.protocolInstanceId ∈ s.pendingUpdates then
      ([], s.respond u (.rejected (.bridge
        "workflow update protocol instance ID is already pending")))
    else
      match u.input with
      | [] => ([.run (h.decodeInput .unitNull) (.updateDecode u h)], s)
      | [payload] => ([.run (h.decodeInput payload) (.updateDecode u h)], s)
      | _ =>
        s.updateError u false
          { category := .workflow
            nonRetryable := true
            message := "update " ++ u.name ++
              " must contain at most one payload for its registered OCaml handler" }

/-! ### Code that ended

Where the result of user code goes, by the frame it ran in, with the handlers that the source puts
around each kind of code. -/

abbrev Ended (P : Program) := Except Exn (Result P.Val)

/-- A result, with every exception turned into a defect under the given label. -/
def contain (label : String) : Ended P → Result P.Val
  | .ok result => result
  | .error x => .error (.defect (label ++ P.printexc x))

/-- The end of a fiber phase: control exceptions end the fiber, others become a
defect under the given label. -/
def phaseEnd (s : State P) (label : String) (ended : Ended P)
    (failed : Error → Outcome P) (ok : Ret P.Val → Outcome P) : Outcome P :=
  match ended with
  | .error x => if x.isControl then ([], s) else failed (.defect (label ++ P.printexc x))
  | .ok (.error e) => failed e
  | .ok (.ok value) => ok value

/-- Settles the future behind a decoder; a second resolution would escape the
activation. -/
def settleDecoded (s : State P) (f : Nat) (result : Result P.Val) : Outcome P :=
  match s.settle f result with
  | (s, .raised x) => ([], { s with escaped := some x })
  | (s, _) => ([], s)

/-- Settles a condition waiter that is still registered. -/
def settleCondition (s : State P) (f : Nat) (result : Result P.Val) : Outcome P :=
  if s.ctx.hasCondition f then
    match settle { s with ctx := s.ctx.removeCondition f } f result with
    | (s, .raised x) => ([], { s with sched := s.sched.recordFailure x })
    | (s, _) => ([], s)
  else ([], s)

/-- Puts the randomness flag back as `with_randomness_disabled` does. -/
def restoreRandomness (s : State P) : Option Bool → State P
  | none => s
  | some previous => { s with ctx := { s.ctx with randomnessDisabled := previous } }

/-- Code returned or raised: its frame says what that means for the execution. -/
def finish (s : State P) (ended : Ended P) : Frame P → Outcome P
  | .root =>
    s.phaseEnd "workflow implementation raised: " ended s.fail
      fun value => ([.run (P.encodeOutput value) .rootEncode], s)
  | .rootEncode =>
    -- This handler catches the control exceptions too.
    match contain "workflow result encoder raised: " ended with
    | .error e => s.failTask e
    | .ok value => s.emitTerminal (.completeWorkflow value.asPayload)
  | .signal =>
    match ended with
    | .error x => s.raiseFiber x
    | .ok (.error e) => s.fail e
    | .ok (.ok _) => ([], s)
  | .updateDecode u h =>
    s.phaseEnd "update input codec raised: " ended (s.updateError u false)
      fun input => s.validate u h input
  | .updateValidate u h input restore =>
    let s := s.restoreRandomness restore
    match contain "update validator raised: " ended with
    | .error e => s.updateError u false e
    | .ok _ => s.acknowledge u h input
  | .updateRun u h =>
    s.phaseEnd "update handler raised: " ended (s.updateError u true)
      fun output => ([.run (h.encodeOutput output) (.updateEncode u)], s)
  | .updateEncode u =>
    s.phaseEnd "update output codec raised: " ended (s.updateError u true)
      fun value => ([], (s.forgetUpdate u).respond u (.completed value.asPayload))
  | .callback =>
    match ended with
    | .error x => s.raiseFiber x
    | .ok _ => ([], s)
  | .predicate f =>
    match contain "Temporal condition predicate raised: " ended with
    | .error e => s.settleCondition f (.error e)
    | .ok value => if value.asBool then s.settleCondition f (.ok .unit) else ([], s)
  | .query queryId restore =>
    let result : Except Error Payload :=
      match contain "query handler raised: " ended with
      | .error e => .error e
      | .ok value => .ok value.asPayload
    let ctx : Context P := { s.ctx with randomnessDisabled := restore, queryRead := false }
    ([], { s with ctx := ctx.emit (.queryResult queryId result) })
  | .decodeActivity f => s.settleDecoded f (contain "activity result decoder raised: " ended)
  | .decodeChild f => s.settleDecoded f (contain "child workflow result decoder raised: " ended)

/-! ### Running code and queued work -/

/-- Carries out an interaction of running code. Without the fiber's handler an
effect is an exception at the point where it was performed. -/
def interact (s : State P) (frame : Frame P) : Node P.Val P.Code → Outcome P
  | .ret result => s.finish (.ok result) frame
  | .raise x => s.finish (.error x) frame
  | .perform op k =>
    match s.perform op with
    | .reply s resp => ([.run (k resp) frame], s)
    | .suspend f =>
      if frame.handled then ([], { s with sched := s.sched.addWaiter f k frame })
      else ([.run (k (.raised .unhandledEffect)) frame], s)
    | .abort s =>
      if frame.handled then
        ([.run (k (.raised .workflowAborted)) frame], { s with sched := s.sched.captureAbort })
      else ([.run (k (.raised .unhandledEffect)) frame], s)

/-- Runs code up to its next interaction and carries it out. -/
def runCode (s : State P) (code : P.Code) (frame : Frame P) : Outcome P :=
  let viewed := P.view code s.memory
  interact { s with memory := viewed.1 } frame viewed.2

/-- Discontinues a waiter with `Scheduler_shutdown`. -/
def discontinue (s : State P) (k : Cont P) : Outcome P :=
  ([.run (k.resume (.raised .schedulerShutdown)) k.frame], s)

/-- Spawned work is inert after shutdown. -/
def spawned (s : State P) (body : Outcome P) : Outcome P :=
  if s.sched.active then body else ([], s)

def invoke (s : State P) : Thunk P → Outcome P
  | .root =>
    s.spawned
      (match P.implementation with
        | none => s.fail (.bridge "remote workflow has no implementation")
        | some code => ([.run code .root], s))
  | .signal code => s.spawned ([.run code .signal], s)
  | .update u => s.spawned (s.startUpdate u)
  | .backoffTimer seq attempt milliseconds originalScheduleTime =>
    s.spawned ([], { s with
      ctx := s.ctx.startBackoffTimer seq attempt milliseconds originalScheduleTime })
  | .backoffRetry seq attempt originalScheduleTime =>
    s.spawned ([], { s with ctx := s.ctx.retryLocalActivity seq attempt originalScheduleTime })
  | .resume k result =>
    if s.sched.live then
      ([.run (k.resume (.ofResult result)) k.frame], s)
    else s.discontinue k
  | .deliver id result =>
    let token := s.sched.tokens id
    let s : State P := { s with sched := s.sched.clearToken id }
    match s.sched.live, token with
    | true, some observer => ([.run (observer result) .callback], s)
    | _, _ => ([], s)
  | .callback code => if s.sched.live then ([.run code .callback], s) else ([], s)

/-! ### Jobs

The job pass of `activate` applies the jobs in their order and stops at an exception that escapes.
Afterwards the scheduler runs, unless the run has ended or only queries were delivered. -/

/-- What `process_job` does with a resolution. -/
def applied : Applied P → Outcome P
  | .ok s => ([], s)
  | .error s e => s.fail e
  | .raised s x => ([], { s with escaped := some x })
  | .decode s code frame => ([.run code frame], s)

/-- Queues a handler fiber; a scheduler that is shut down raises. -/
def spawnJob (s : State P) (th : Thunk P) : Outcome P :=
  match s.sched.spawn th with
  | none => ([], { s with escaped := some Scheduler.shutDown })
  | some sched => ([], { s with sched })

/-- At most 256 bytes of a signal name, cut at a character boundary. -/
def diagnosticSignalName (name : String) : String :=
  if name.utf8ByteSize ≤ 256 then name
  else
    let kept := name.toList.foldl
      (fun (acc : List Char × Nat × Bool) ch =>
        if acc.2.2 && acc.2.1 + ch.utf8Size ≤ 256 then
          (ch :: acc.1, acc.2.1 + ch.utf8Size, true)
        else (acc.1, acc.2.1, false)) ([], 0, true)
    String.ofList kept.1.reverse ++ "..."

/-- The task failure of a signal with no registered handler. -/
def unhandledSignal (name : String) : Error :=
  .defect ("unhandled workflow signal: " ++ diagnosticSignalName name ++
    " (no handler is registered on this worker; the workflow task fails until a worker that " ++
    "registers it replays the run, or the run is reset or terminated)")

/-- Answers a query inline, with the random stream closed. -/
def processQuery (s : State P) (queryId queryType : String) (arguments : List Payload)
    (headers : List (String × Payload)) : Outcome P :=
  match P.queryHandlers queryType with
  | none =>
    let error : Error := .bridge ("unhandled workflow query: " ++ queryType)
    ([], { s with ctx := s.ctx.emit (.queryResult queryId (.error error)) })
  | some handler =>
    ([.run (handler arguments headers) (.query queryId s.ctx.randomnessDisabled)],
      { s with ctx := { s.ctx with queryRead := true, randomnessDisabled := true } })

def processJob (s : State P) : Job → Outcome P
  | .startWorkflow =>
    if s.started then s.fail (.bridge "workflow received duplicate start job")
    else ([], { s with started := true })
  | .resolveActivity seq result => applied (s.resolveActivity seq result)
  | .resolveLocalActivityBackoff seq attempt milliseconds originalScheduleTime =>
    applied (s.resolveLocalActivityBackoff seq attempt milliseconds originalScheduleTime)
  | .resolveChildWorkflowStart seq result => applied (s.resolveChildWorkflowStart seq result)
  | .resolveChildWorkflow seq result => applied (s.resolveChildWorkflow seq result)
  | .resolveSignalExternalWorkflow seq result =>
    applied (s.resolveExternalWorkflow .signal seq result)
  | .resolveRequestCancelExternalWorkflow seq result =>
    applied (s.resolveExternalWorkflow .cancel seq result)
  | .queryWorkflow queryId queryType arguments headers =>
    s.processQuery queryId queryType arguments headers
  | .doUpdate u => s.spawnJob (.update u)
  | .signalWorkflow name input identity headers =>
    match P.signalHandlers name with
    | none => s.failTask (unhandledSignal name)
    | some handler => s.spawnJob (.signal (handler input identity headers))
  | .notifyHasPatch patchId => ([], { s with ctx := s.ctx.notifyHasPatch patchId })
  | .updateRandomSeed seed =>
    match s.ctx.updateRandomSeed seed with
    | .ok ctx => ([], { s with ctx })
    | .error x => ([], { s with escaped := some x })
  | .fireTimer seq => applied (s.fireTimer seq)
  | .cancelWorkflow => s.emitTerminal .cancelWorkflowExecution
  | .removeFromCache => contextShutdown { s with evicted := true, pendingUpdates := [] }

/-- Which jobs of an activation are still applied. Core may query a closed
execution until it evicts it. -/
def accepts (s : State P) : Job → Bool
  | .queryWorkflow _ _ _ _ | .removeFromCache => !s.evicted
  | _ => !s.evicted && !s.terminal

/-- After the job pass: the root is queued behind the handlers of the first
activation, then the scheduler runs. -/
def afterJobs (s : State P) (wasStarted queryOnly : Bool) : Outcome P :=
  if s.evicted then ([], { s with ctx := { s.ctx with outputs := s.ctx.outputs ++ [[]] } })
  else if s.terminal || queryOnly then ([.activateTail], s)
  else if s.sched.active then
    let sched := if !wasStarted && s.started then s.sched.enqueue .root else s.sched
    ([.drain, .runTail, .activateTail], { s with sched := sched.beginRun })
  else ([], { s with escaped := some Scheduler.shutDown })

/-- The first task failure among the commands about to be returned. -/
def taskFailing (commands : List Command) : Option Error :=
  commands.findSome? fun
    | .failWorkflow e => if e.isTaskFailure then some e else none
    | _ => none

/-- The end of `activate`: returns the commands, or fails the task, and
finalizes a run whose terminal command did not go through `emitTerminal`. -/
def activateTail (s : State P) : Outcome P :=
  match taskFailing s.ctx.commandsRev.reverse with
  | some e =>
    let ctx := s.ctx.discardCommands
    ({ s with ctx := { ctx with outputs := ctx.outputs ++ [[]] } } : State P).poisonTask e
  | none =>
    let ended := s.ctx.hasBufferedTerminal
    let s : State P := { s with ctx := s.ctx.takeCommands }
    if ended then contextShutdown { s with terminal := true, pendingUpdates := [] }
    else ([], s)

/-! ### One step -/

def drain (s : State P) : Outcome P :=
  match s.sched.pop, s.sched.abortRequested with
  | some (th, sched), false =>
    let r := ({ s with sched } : State P).invoke th
    (r.1 ++ [.drain], r.2)
  | _, _ =>
    if s.sched.active && !s.sched.abortRequested && s.sched.failures.isEmpty then
      -- `on_idle`: a terminal command suppresses the recheck
      if s.terminal || s.evicted || s.ctx.hasBufferedTerminal then ([.afterIdle], s)
      else ([.notify s.ctx.conditions, .afterIdle], s)
    else ([], s)

/-- The end of `run_scheduler`: the oldest recorded exception fails the task. -/
def runTail (s : State P) : Outcome P :=
  let s : State P := { s with sched := s.sched.endRun }
  match s.sched.failures.getLast? with
  | some x => s.poisonTask (.defect (P.printexc x))
  | none => ([], s)

/-- One step of the execution: the top task runs up to its next call. -/
def step (s : State P) : Task P → Outcome P
  | .run code frame => s.runCode code frame
  | .drain => s.drain
  | .notify [] => ([], s)
  | .notify ((f, predicate) :: waiters) =>
    if s.ctx.hasCondition f then
      ([.run predicate (.predicate f), .notify waiters], s)
    else ([.notify waiters], s)
  | .afterIdle => if s.sched.queue.isEmpty then ([], s) else ([.drain], s)
  | .runTail => s.runTail
  | .teardown [] => ([], s)
  | .teardown (f :: futures) =>
    let r := s.sched.teardown f
    ([.discontinue r.2, .teardown futures], { s with sched := r.1 })
  | .discontinue [] => ([], s)
  | .discontinue (k :: waiters) =>
    let r := s.discontinue k
    (r.1 ++ [.discontinue waiters], r.2)
  | .afterTeardown => if s.sched.running then ([], s) else ([.shutdownDrain], s)
  | .shutdownDrain =>
    match s.sched.pop with
    | none => ([], s)
    | some (th, sched) =>
      let r := ({ s with sched } : State P).invoke th
      (r.1 ++ [.shutdownDrain], r.2)
  | .clearTables => ([], { s with ctx := s.ctx.clearTables })
  | .discardCommands => ([], { s with ctx := s.ctx.discardCommands })
  | .jobs js wasStarted queryOnly =>
    -- An exception of the previous job has ended the activation.
    if s.escaped.isSome then ([], s)
    else
      match js with
      | [] => s.afterJobs wasStarted queryOnly
      | job :: rest =>
        if s.accepts job then
          let r := s.processJob job
          (r.1 ++ [.jobs rest wasStarted queryOnly], r.2)
        else ([.jobs rest wasStarted queryOnly], s)
  | .activateTail => s.activateTail

end State

/-- The top task runs code of the given frame that performs `op` and goes on with `k`. -/
def Task.Performs {P : Program} (s : State P) (t : Task P) (op : Op P.Val P.Code)
    (k : Resp P.Val → P.Code) (frame : Frame P) : Prop :=
  ∃ code memory, t = .run code frame ∧ P.view code s.memory = (memory, .perform op k)

theorem Task.Performs.step {P : Program} {s : State P} {t : Task P} {op : Op P.Val P.Code}
    {k : Resp P.Val → P.Code} {frame : Frame P} (h : t.Performs s op k frame) :
    ∃ memory, s.step t = State.interact { s with memory } frame (.perform op k) := by
  obtain ⟨code, memory, rfl, hview⟩ := h
  exact ⟨memory, by simp only [State.step, State.runCode, hview]⟩

/-! ### The execution as a machine

The worker gives an input to an execution whose stack is empty, and the next one when every task of
the last has returned. -/

def machine (P : Program) : Machine (Task P) (State P) := ⟨fun task s => s.step task⟩

/-- A configuration: the calls that have not returned, and the state. -/
abbrev Config (P : Program) := Lib.Machine.Config (Task P) (State P)

/-- What the worker does with an execution between two activations. -/
inductive Input
  | activate (jobs : List Job)
  | setActivationIsReplaying (isReplaying : Bool)
  -- `Execution.shutdown`
  | shutdown
  deriving DecidableEq

/-- Only queries are delivered; an empty activation is an ordinary one. -/
def queryOnly : List Job → Bool
  | [] => false
  | jobs => jobs.all Job.isQuery

def Input.apply {P : Program} (s : State P) : Input → Outcome P
  | activate jobs => ([.jobs jobs s.started (queryOnly jobs)], { s with escaped := none })
  | setActivationIsReplaying b => ([], { s with ctx := { s.ctx with activationIsReplaying := b } })
  | shutdown => State.contextShutdown { s with pendingUpdates := [] }

/-- The configurations an execution of `P` passes through. -/
inductive Reachable (P : Program) : Config P → Prop
  | start : Reachable P ⟨[], State.start P⟩
  | input {s : State P} (i : Input) : Reachable P ⟨[], s⟩ →
      Reachable P ⟨(i.apply s).1, (i.apply s).2⟩
  | step {c : Config P} : Reachable P c → Reachable P ((machine P).next c)

/-- The configurations an execution of `P` passes through, with the log of what is
observed of each step before it is taken. -/
inductive Logged {P : Program} {E : Type} (observe : State P → Task P → List E) :
    List E → Config P → Prop
  | start : Logged observe [] ⟨[], State.start P⟩
  | input {log : List E} {s : State P} (i : Input) : Logged observe log ⟨[], s⟩ →
      Logged observe log ⟨(i.apply s).1, (i.apply s).2⟩
  | step {log : List E} {s : State P} {t : Task P} {ts : List (Task P)} :
      Logged observe log ⟨t :: ts, s⟩ →
      Logged observe (log ++ observe s t) ((machine P).next ⟨t :: ts, s⟩)

/-- The configurations an execution passes through from `c` on. -/
inductive Runs {P : Program} (c : Config P) : Config P → Prop
  | refl : Runs c c
  | input {s : State P} (i : Input) : Runs c ⟨[], s⟩ → Runs c ⟨(i.apply s).1, (i.apply s).2⟩
  | step {d : Config P} : Runs c d → Runs c ((machine P).next d)

end OcamlTemporal
