import Mathlib.Logic.Relation
import OcamlTemporal.Runtime.Execution

/-!
# OcamlTemporal.Runtime.Changes

What can happen to the scheduler, to the context and to an execution.
**`Scheduler.Change`** and **`Context.Change`** list the primitive updates of the
two records with what is known when each is made, and **`State.Move`** those of
an execution. What operations, jobs and queued
work do is the smaller **`Act`** of each; `perform_spec` and the `_acts` lemmas
say so function by function. Four operations are kept apart from the others
(`Op.isOwn`): what they do is a matter of the code that calls them alone, and the
statements about observers and patches are about just these calls.
-/

namespace OcamlTemporal

open Relation (ReflTransGen)

variable {P : Program}

/-! ### Updates of the scheduler and of the context -/

/-- The two thunks of a local activity's retry. -/
def Thunk.isRetry : Thunk P → Bool
  | .backoffTimer _ _ _ _ | .backoffRetry _ _ _ => true
  | _ => false

/-- The first fiber, signal handlers and callbacks. -/
def Thunk.isPlain : Thunk P → Bool
  | .root | .signal _ | .callback _ => true
  | _ => false

theorem Thunk.isRetry_of_isPlain {th : Thunk P} (h : th.isPlain = true) : th.isRetry = false := by
  cases th <;> first | rfl | cases h

theorem Thunk.cont?_of_isPlain {th : Thunk P} (h : th.isPlain = true) : th.cont? = none := by
  cases th <;> first | rfl | cases h

/-- What operations, jobs and queued work do to the scheduler: nothing of it takes
work from the queue, and a pending future keeps its waiters and observers until it
is resolved. -/
inductive Scheduler.Act : Scheduler P → Scheduler P → Prop
  | enqueue {s : Scheduler P} (th : Thunk P) (h : th.isPlain = true) : Act s (s.enqueue th)
  | promise {s s' : Scheduler P} {f : Nat} (e : Error) (isSignal : Bool)
      (h : s.promise e isSignal = some (s', f)) : Act s s'
  | resolve {s s' : Scheduler P} {f : Nat} {r : Result P.Val} (h : s.resolve f r = some s') :
      Act s s'
  | clearToken {s : Scheduler P} (id : Nat) : Act s (s.clearToken id)
  | recordFailure {s : Scheduler P} (x : Exn) : Act s (s.recordFailure x)

/-- The updates by the two operations on observers. -/
inductive Scheduler.Link : Scheduler P → Scheduler P → Prop
  | subscribe {s : Scheduler P} (f : Nat) (observer : Result P.Val → P.Code) :
      Link s (s.subscribe f observer).1
  | unsubscribe {s : Scheduler P} (id : Nat) : Link s (s.unsubscribe id)

/-- The updates of the loops: they take work from the queue, suspend a fiber, close a
future, queue an update, or enter and leave the drain. -/
inductive Scheduler.Tied : Scheduler P → Scheduler P → Prop
  | pop {s s' : Scheduler P} {th : Thunk P} (h : s.pop = some (th, s')) : Tied s s'
  | addWaiter {s : Scheduler P} {f : Nat} {waiters : List (Cont P)} {observers : List Nat}
      (k : Resp P.Val → P.Code) (frame : Frame P) (hlive : s.live = true)
      (h : s.cellState f = some (.pending waiters observers)) : Tied s (s.addWaiter f k frame)
  | teardown {s : Scheduler P} (f : Nat) (h : s.active = false) : Tied s (s.teardown f).1
  | delivered {s : Scheduler P} (u : Update) : Tied s (s.enqueue (.update u))
  | beginRun {s : Scheduler P} (h : s.active = true) : Tied s s.beginRun
  | endRun {s : Scheduler P} : Tied s s.endRun

/-- One primitive update of the scheduler. -/
inductive Scheduler.Change : Scheduler P → Scheduler P → Prop
  | act {s s' : Scheduler P} (h : Act s s') : Change s s'
  | link {s s' : Scheduler P} (h : Link s s') : Change s s'
  | tied {s s' : Scheduler P} (h : Tied s s') : Change s s'
  | enqueue {s : Scheduler P} (th : Thunk P) (h : th.isRetry = true) : Change s (s.enqueue th)
  | captureAbort {s : Scheduler P} : Change s s.captureAbort
  | deactivate {s : Scheduler P} : Change s s.deactivate

/-- Commands that neither end the run nor belong to an operation or an update. -/
def Command.isPlain : Command → Bool
  | .queryResult _ _ | .upsertSearchAttributes _ => true
  | _ => false

def Command.isExternal : Command → Bool
  | .signalExternalWorkflow _ _ _ _ _ _ _ | .requestCancelExternalWorkflow _ _ _ _ => true
  | _ => false

/-- What operations and jobs do to the context, the retries of local activities
apart. -/
inductive Context.Act : Context P → Context P → Prop
  -- starting operations
  | allocate {c : Context P} : Act c c.allocateSequence
  | startTimer {c : Context P} (f : Nat) (milliseconds : Int) :
      Act c ((c.allocateSequence.saveTimer (c.nextSequence + 1) f).emit
        (.startTimer (c.nextSequence + 1) milliseconds))
  | scheduleActivity {c : Context P} (f : Nat) (decode : Payload → P.Code)
      (request : ScheduledActivity) :
      Act c ((c.allocateSequence.saveActivity (c.nextSequence + 1) f decode none).emit
        (.scheduleActivity (c.nextSequence + 1) request))
  | scheduleLocalActivity {c : Context P} (f : Nat) (decode : Payload → P.Code)
      (request : ScheduledLocalActivity) :
      Act c ((c.allocateSequence.saveActivity (c.nextSequence + 1) f decode (some request)).emit
        (.scheduleLocalActivity (c.nextSequence + 1) 1 none request))
  | startChild {c : Context P} (f started : Nat) (decode : Payload → P.Code)
      (request : StartedChildWorkflow) :
      Act c ((c.allocateSequence.saveChild (c.nextSequence + 1) f started decode).emit
        (.startChildWorkflow (c.nextSequence + 1) request))
  | startExternal {c : Context P} (operation : ExternalOperation) (f : Nat) (command : Command)
      (h : command.isExternal = true) :
      Act c ((c.allocateSequence.saveExternal operation (c.nextSequence + 1) f).emit command)
  -- timers
  | cancelTimer {c : Context P} {seq f : Nat} {timer : Timer} (hsealed : c.isSealed = false)
      (hf : c.timerHandles seq = some f) (h : c.timers seq = some timer) :
      Act c ((c.removeTimer seq).emit (.cancelTimer seq))
  | fireSleep {c : Context P} {seq f : Nat} (h : c.timers seq = some (.sleep f)) :
      Act c (c.removeTimer seq)
  -- a retry timer whose activity has left the backoff
  | fireStale {c : Context P} {seq la : Nat} {attempt : Int} {time : Option Timestamp}
      (h : c.timers seq = some (.backoff la attempt time))
      (hla : ∀ a t, c.localActivities la = some a → a.backoff ≠ .timer t) :
      Act c (c.removeTimer seq)
  -- activities
  | removeActivity {c : Context P} {seq : Nat} {a : Activity P} (h : c.activities seq = some a) :
      Act c (c.removeActivity seq)
  | requestCancel {c : Context P} {seq : Nat} {handle : ActivityHandle} {a : Activity P}
      (hh : c.activityHandles seq = some handle) (hn : handle.cancellationRequested = false)
      (h : c.activities seq = some a)
      (hla : ∀ la, c.localActivities seq = some la → la.backoff = .idle) :
      Act c ((c.markCancelled seq handle).emit
        (if handle.isLocal then .requestCancelLocalActivity seq else .requestCancelActivity seq))
  /-- A cancellation that finds the activity between two attempts marks its handle,
  leaves the backoff and drops the activity at once. -/
  | cancelBackoff {c : Context P} {seq : Nat} {handle : ActivityHandle} {la : LocalActivity}
      {a : Activity P} (hh : c.activityHandles seq = some handle)
      (hla : c.localActivities seq = some la) (h : c.activities seq = some a) :
      Act c (((c.markCancelled seq handle).leaveBackoff seq la).removeActivity seq)
  -- a local activity without an activity entry, which no run reaches
  | leaveBackoff {c : Context P} {seq : Nat} {la : LocalActivity}
      (hla : c.localActivities seq = some la) (h : c.activities seq = none) :
      Act c (c.leaveBackoff seq la)
  -- child and external workflows
  | cancelChild {c : Context P} {seq : Nat} (reason : String) (handle : ChildHandle) :
      Act c (c.cancelChild seq reason handle)
  | acknowledgeStart {c : Context P} {seq : Nat} {child : Child P} (runId : String)
      (h : c.childWorkflows seq = some child) (hs : child.startRunId = none) :
      Act c (c.acknowledgeStart seq child runId)
  | failUnstarted {c : Context P} {seq : Nat} {child : Child P}
      (h : c.childWorkflows seq = some child) (hs : child.startRunId = none) :
      Act c ((c.removeUnstarted seq).markChildTerminal seq)
  -- the start resolver of the child raised, which no run reaches
  | removeUnstarted {c : Context P} {seq : Nat} {child : Child P}
      (h : c.childWorkflows seq = some child) (hs : child.startRunId = none) :
      Act c (c.removeUnstarted seq)
  | resolveStarted {c : Context P} {seq : Nat} {child : Child P}
      (h : c.childWorkflows seq = some child) :
      Act c ((c.removeStarted seq).markChildTerminal seq)
  | removeExternal {c : Context P} {seq : Nat} {e : External}
      (h : c.externalWorkflows seq = some e) : Act c (c.removeExternal seq)
  -- the rest
  | emit {c : Context P} (command : Command) (h : command.isPlain = true) :
      Act c (c.emit command)
  -- updates no invariant of this development looks at
  | misc {c : Context P} (randomState : BitVec 64) (randomnessDisabled queryRead : Bool)
      (conditions : List (Nat × P.Code)) :
      Act c { c with randomState, randomnessDisabled, queryRead, conditions }

/-- The steps of a local activity's retry. -/
inductive Context.Retry : Context P → Context P → Prop
  | acceptBackoff {c : Context P} {seq : Nat} {la : LocalActivity}
      (hla : c.localActivities seq = some la) (hidle : la.backoff = .idle)
      (hwanted : (c.activityHandles seq).any (·.cancellationRequested) = false) :
      Retry c (c.acceptBackoff seq la)
  | startBackoffTimer {c : Context P} {seq : Nat} {la : LocalActivity} (attempt : Int)
      (milliseconds : Int) (time : Option Timestamp) (hla : c.localActivities seq = some la)
      (hqueued : la.backoff = .timerQueued) :
      Retry c (c.beginBackoffTimer seq la attempt milliseconds time)
  | fireBackoff {c : Context P} {seq la t : Nat} {attempt : Int} {time : Option Timestamp}
      {a : LocalActivity} (h : c.timers seq = some (.backoff la attempt time))
      (ha : c.localActivities la = some a) (ht : a.backoff = .timer t) :
      Retry c ((c.removeTimer seq).queueRetry seq la a)
  | retryLocalActivity {c : Context P} {seq : Nat} {la : LocalActivity} (attempt : Int)
      (time : Option Timestamp) (hla : c.localActivities seq = some la)
      (hqueued : la.backoff = .retryQueued) : Retry c (c.scheduleRetry seq la attempt time)

/-- The updates of the patch table. -/
inductive Context.Patch : Context P → Context P → Prop
  | notifyHasPatch {c : Context P} (patchId : String) : Patch c (c.notifyHasPatch patchId)
  | callPatchApi {c : Context P} (patchId : String) (mode : PatchMode) :
      Patch c (c.callPatchApi patchId mode).1

/-- One primitive update of the context. -/
inductive Context.Change : Context P → Context P → Prop
  | act {c c' : Context P} (h : Act c c') : Change c c'
  | patch {c c' : Context P} (h : Patch c c') : Change c c'
  | retry {c c' : Context P} (h : Retry c c') : Change c c'
  | respond {c : Context P} (id : String) (response : UpdateResponse) :
      Change c (c.emit (.updateResponse id response))
  | updateBody {c : Context P} (id : String) : Change c (c.record (.updateBody id))
  | terminate {c : Context P} (command : Command) (h : command.isTerminal = true) :
      Change c (c.terminate command)
  | emitTerminal {c : Context P} (command : Command) (h : command.isTerminal = true) :
      Change c (c.emit command).close
  | takeCommands {c : Context P} : Change c c.takeCommands
  | discardCommands {c : Context P} : Change c c.discardCommands
  | returnNothing {c : Context P} : Change c { c with outputs := c.outputs ++ [[]] }
  | setReplaying {c : Context P} (b : Bool) : Change c { c with activationIsReplaying := b }
  | close {c : Context P} : Change c c.close
  | clearTables {c : Context P} (h : c.isSealed = true) : Change c c.clearTables

/-! ### Updates of an execution -/

/-- What operations, jobs and queued work do to an execution. A retry that is queued
changes the context in the same update. -/
inductive State.Act : State P → State P → Prop
  | sched {s : State P} {sched : Scheduler P} (h : Scheduler.Act s.sched sched) :
      Act s { s with sched }
  | ctx {s : State P} {ctx : Context P} (h : Context.Act s.ctx ctx) : Act s { s with ctx }
  | acceptBackoff {s : State P} {seq : Nat} {la : LocalActivity} {attempt : Int}
      (milliseconds : Int) (time : Option Timestamp)
      (hla : s.ctx.localActivities seq = some la) (hidle : la.backoff = .idle)
      (hattempt : la.attempt < attempt)
      (hwanted : (s.ctx.activityHandles seq).any (·.cancellationRequested) = false) :
      Act s { s with
        ctx := s.ctx.acceptBackoff seq la
        sched := s.sched.enqueue (.backoffTimer seq attempt milliseconds time) }
  | other {s : State P} (memory : P.Mem) (started : Bool) (escaped : Option Exn) :
      Act s { s with memory, started, escaped }

/-- Retry timer `n` fires: the next attempt is queued, unless the scheduler was shut
down, which the job raises. -/
inductive State.Fired (n : Nat) : State P → State P → Prop
  | retry {s : State P} {seq t : Nat} {attempt : Int} {time : Option Timestamp}
      {la : LocalActivity} (h : s.ctx.timers n = some (.backoff seq attempt time))
      (hla : s.ctx.localActivities seq = some la) (ht : la.backoff = .timer t)
      (escaped : Option Exn) :
      Fired n s { s with
        ctx := (s.ctx.removeTimer n).queueRetry n seq la
        sched := s.sched.enqueue (.backoffRetry seq attempt time)
        escaped }

/-- Queued retry work that runs: it leaves the queue and changes the context, unless the
activity has left the phase the work was queued for. -/
inductive State.Retried : State P → State P → Prop
  | startBackoffTimer {s : State P} {sched : Scheduler P} {seq : Nat} {attempt milliseconds : Int}
      {time : Option Timestamp} {la : LocalActivity}
      (h : s.sched.pop = some (.backoffTimer seq attempt milliseconds time, sched))
      (hla : s.ctx.localActivities seq = some la) (hqueued : la.backoff = .timerQueued) :
      Retried s { s with sched, ctx := s.ctx.beginBackoffTimer seq la attempt milliseconds time }
  | retryLocalActivity {s : State P} {sched : Scheduler P} {seq : Nat} {attempt : Int}
      {time : Option Timestamp} {la : LocalActivity}
      (h : s.sched.pop = some (.backoffRetry seq attempt time, sched))
      (hla : s.ctx.localActivities seq = some la) (hqueued : la.backoff = .retryQueued) :
      Retried s { s with sched, ctx := s.ctx.scheduleRetry seq la attempt time }
  | left {s : State P} {sched : Scheduler P} {th : Thunk P} (h : s.sched.pop = some (th, sched)) :
      Retried s { s with sched }

/-- What the operations on observers and patches do. -/
inductive State.Own : State P → State P → Prop
  | link {s : State P} {sched : Scheduler P} (h : Scheduler.Link s.sched sched) :
      Own s { s with sched }
  | patch {s : State P} {ctx : Context P} (h : Context.Patch s.ctx ctx) : Own s { s with ctx }
  -- outside a workflow they raise
  | refused {s : State P} : Own s s

/-- The updates of an execution that leave its scheduler active and its stack alone:
what code and jobs do, and the ends of an activation. -/
inductive State.Change : State P → State P → Prop
  | act {s s' : State P} (h : Act s s') : Change s s'
  /-- A terminal operation; only a fiber's abort reaches the scheduler. -/
  | terminate {s : State P} (command : Command) (h : command.isTerminal = true) (aborted : Bool) :
      Change s { s with
        ctx := s.ctx.terminate command
        sched := if aborted then s.sched.captureAbort else s.sched }
  | takeCommands {s : State P} (h : s.ctx.hasBufferedTerminal = false) :
      Change s { s with ctx := s.ctx.takeCommands }
  | discardCommands {s : State P} (h : s.sched.active = false ∨ s.taskFailure.isSome = true) :
      Change s { s with ctx := s.ctx.discardCommands }
  | returnNothing {s : State P} :
      Change s { s with ctx := { s.ctx with outputs := s.ctx.outputs ++ [[]] } }
  | clearTables {s : State P} (h : s.ctx.isSealed = true) :
      Change s { s with ctx := s.ctx.clearTables }
  | setReplaying {s : State P} (b : Bool) :
      Change s { s with ctx := { s.ctx with activationIsReplaying := b } }

/-- The last response to an update, by whether it was accepted before. -/
inductive State.Answer (u : Update) : Bool → State P → State P → Prop
  | refuse {s : State P} (e : Error) : Answer u false s (s.respond u (.rejected e))
  | finish {s : State P} (response : UpdateResponse) (h : response ≠ .accepted) :
      Answer u true s ((s.forgetUpdate u).respond u response)

/-- What is done to an execution just before its context is shut down. -/
inductive State.Ending : State P → State P → Prop
  | emitTerminal {s : State P} (command : Command) (h : command.isTerminal = true)
      (hbuffered : s.ctx.hasBufferedTerminal = false) :
      Ending s { s with terminal := true, ctx := s.ctx.emit command, pendingUpdates := [] }
  -- a shutdown without a command of its own
  | shutdown {s : State P} (terminal evicted : Bool) (taskFailure : Option Error)
      (hterminal : s.terminal = true → terminal = true)
      (hevicted : s.evicted = true → evicted = true)
      (hfailure : s.taskFailure.isSome = true → taskFailure.isSome = true)
      (hrunning : s.sched.running = true → s.ctx.hasBufferedTerminal = false) :
      Ending s { s with terminal, evicted, taskFailure, pendingUpdates := [] }
  -- the end of `activate` for a run that ended
  | finalize {s : State P} (hrunning : s.sched.running = false) :
      Ending s { s with terminal := true, ctx := s.ctx.takeCommands, pendingUpdates := [] }

/-- Every primitive update of an execution; of the retry timers only those of `fires`
may fire. -/
inductive State.Move (fires : Nat → Prop) : State P → State P → Prop
  | change {s s' : State P} (h : Change s s') : Move fires s s'
  | answer {s s' : State P} {u : Update} {accepted : Bool} (h : Answer u accepted s s') :
      Move fires s s'
  | accept {s : State P} (u : Update) (h : u.protocolInstanceId ∉ s.pendingUpdates) :
      Move fires s (s.acknowledged u)
  | ended {s e : State P} (h : Ending s e) : Move fires s e.contextShutdown.2
  | own {s s' : State P} (h : Own s s') : Move fires s s'
  | fired {s s' : State P} {n : Nat} (hn : fires n) (h : Fired n s s') : Move fires s s'
  | retried {s s' : State P} (h : Retried s s') : Move fires s s'
  | tied {s : State P} {sched : Scheduler P} (h : Scheduler.Tied s.sched sched) :
      Move fires s { s with sched }

/-- A sequence of updates by operations, jobs and queued work. -/
def Acts (s s' : State P) : Prop := ReflTransGen State.Act s s'

namespace Acts

theorem refl (s : State P) : Acts s s := ReflTransGen.refl

theorem trans {a b c : State P} (h : Acts a b) (h' : Acts b c) : Acts a c :=
  ReflTransGen.trans h h'

variable {s : State P}

theorem single {s' : State P} (h : State.Act s s') : Acts s s' := ReflTransGen.single h

theorem of_sched {sched : Scheduler P} (h : Scheduler.Act s.sched sched) :
    Acts s { s with sched } :=
  .single (.sched h)

theorem of_ctx {ctx : Context P} (h : Context.Act s.ctx ctx) : Acts s { s with ctx } :=
  .single (.ctx h)

theorem of_both {sched : Scheduler P} {ctx : Context P} (hs : Scheduler.Act s.sched sched)
    (hc : Context.Act s.ctx ctx) : Acts s { s with sched, ctx } :=
  .trans (b := { s with sched }) (.of_sched hs) (.of_ctx hc)

end Acts

namespace State

/-! ### Operations

One lemma for each operation of workflow code: it is a sequence of updates and a reply.
`perform_spec` collects them. -/

theorem settle_acts (s : State P) (f : Nat) (r : Result P.Val) :
    Acts s (s.settle f r).1 := by
  unfold settle
  split
  · next sched h => exact .of_sched (.resolve h)
  · exact .refl s

/-- A start is a new future and one update of the context, which `hsave` names. -/
theorem startOperation_acts (s : State P) (save : Context P → Nat → Nat → Context P)
    (command : Nat → Command) (reply : Nat → Nat → Ret P.Val)
    (hsave : ∀ f, Context.Act s.ctx
      ((save s.ctx.allocateSequence (s.ctx.nextSequence + 1) f).emit
        (command (s.ctx.nextSequence + 1)))) :
    Acts s (s.startOperation save command reply).1 := by
  unfold startOperation
  split
  · exact .of_ctx .allocate
  · next sched f h => exact .of_both (.promise _ _ h) (hsave f)

theorem startTimer_acts (s : State P) (milliseconds : Int) :
    Acts s (s.startTimer milliseconds).1 :=
  s.startOperation_acts _ _ _ fun f => .startTimer f milliseconds

theorem scheduleActivity_acts (s : State P) (r : ActivityRequest) (decode : Payload → P.Code) :
    Acts s (s.scheduleActivity r decode).1 :=
  s.startOperation_acts _ _ _ fun f => .scheduleActivity f decode _

theorem scheduleLocalActivity_acts (s : State P) (r : ActivityRequest)
    (decode : Payload → P.Code) : Acts s (s.scheduleLocalActivity r decode).1 :=
  s.startOperation_acts _ _ _ fun f => .scheduleLocalActivity f decode _

theorem signalExternalWorkflow_acts (s : State P) (workflowId runId signalName : String)
    (input : List Payload) (childOnly : Bool) (headers : List (String × Payload)) :
    Acts s (s.signalExternalWorkflow workflowId runId signalName input childOnly headers).1 :=
  s.startOperation_acts _ _ _ fun f => .startExternal .signal f _ rfl

theorem cancelExternalWorkflow_acts (s : State P) (workflowId runId reason : String) :
    Acts s (s.cancelExternalWorkflow workflowId runId reason).1 :=
  s.startOperation_acts _ _ _ fun f => .startExternal .cancel f _ rfl

theorem startChildWorkflow_acts (s : State P) (r : StartedChildWorkflow)
    (decode : Payload → P.Code) : Acts s (s.startChildWorkflow r decode).1 := by
  unfold startChildWorkflow
  split
  · exact .of_ctx .allocate
  · next sched f h =>
    split
    · exact .of_both (.promise _ _ h) .allocate
    · next sched' started h' =>
      exact .trans (b := { s with sched }) (.of_sched (.promise _ _ h))
        (.of_both (.promise _ _ h') (.startChild f started decode r))

theorem cancelTimer_acts (s : State P) (seq : Nat) : Acts s (s.cancelTimer seq).1 := by
  unfold cancelTimer
  split
  · next f _ hf =>
    split
    · exact .refl s
    · next hsealed =>
      split
      · exact .refl s
      · next timer h =>
        refine .trans (b := { s with ctx := (s.ctx.removeTimer seq).emit (.cancelTimer seq) })
          (.of_ctx (.cancelTimer ?_ hf h)) (settle_acts _ _ _)
        exact Bool.eq_false_iff.mpr hsealed
  · exact .refl s

theorem failActivity_acts (s : State P) (seq : Nat) (e : Error) :
    Acts s (s.failActivity seq e).1 := by
  unfold failActivity
  split
  · exact .refl s
  · next a h =>
    exact .trans (b := { s with ctx := s.ctx.removeActivity seq })
      (.of_ctx (.removeActivity h)) (settle_acts _ _ _)

/-- Leaving the backoff and settling the activity is one update of the context. -/
theorem cancelLocalActivityBackoff_acts (s : State P) {seq : Nat} {handle : ActivityHandle}
    {la : LocalActivity} {a : Activity P} (hh : s.ctx.activityHandles seq = some handle)
    (hla : s.ctx.localActivities seq = some la) (h : s.ctx.activities seq = some a) :
    Acts s
      (cancelLocalActivityBackoff { s with ctx := s.ctx.markCancelled seq handle } seq la).1 := by
  unfold cancelLocalActivityBackoff failActivity
  split
  · next hnone =>
    rw [Context.leaveBackoff_activities, show (s.ctx.markCancelled seq handle).activities
      seq = _ from h]
      at hnone
    cases hnone
  · have hleft : Acts s { s with
        ctx := ((s.ctx.markCancelled seq handle).leaveBackoff seq la).removeActivity seq } :=
      .of_ctx (.cancelBackoff hh hla h)
    exact hleft.trans (settle_acts _ _ _)

theorem cancelActivity_acts (s : State P) (seq : Nat) :
    Acts s (s.cancelActivity seq).1 := by
  unfold cancelActivity
  split
  · next handle _ hh =>
    split
    · split <;> exact .refl s
    · next a h =>
      split
      · exact .refl s
      · next hn =>
        have hn : handle.cancellationRequested = false := Bool.eq_false_iff.mpr hn
        dsimp only
        split
        · next la hla =>
          split
          · next hidle =>
            refine .of_ctx (.requestCancel hh hn h fun la' hla' => ?_)
            have : la' = la := Option.some.inj (hla'.symm.trans hla)
            rw [this, hidle]
          · exact s.cancelLocalActivityBackoff_acts hh hla h
        · next hla =>
          refine .of_ctx (.requestCancel hh hn h fun la' hla' => ?_)
          have hla : s.ctx.localActivities seq = none := hla
          rw [hla] at hla'
          cases hla'
  · exact .refl s

theorem cancelChildWorkflow_acts (s : State P) (seq : Nat) (reason : String) :
    Acts s (s.cancelChildWorkflow seq reason).1 := by
  unfold cancelChildWorkflow
  split
  · next handle _ hh =>
    split
    · exact .refl s
    · split
      · split <;> exact .refl s
      · split
        · exact .refl s
        · exact .of_ctx (.cancelChild reason handle)
  · exact .refl s

theorem createSignal_acts (s : State P) : Acts s s.createSignal.1 := by
  unfold createSignal
  split
  · exact .refl s
  · next h => exact .of_sched (.promise _ _ h)

theorem signal_acts (s : State P) (f : Nat) : Acts s (s.signal f).1 := by
  unfold signal
  split
  · split
    · split
      · exact settle_acts s f _
      · exact .refl s
    · exact .refl s
  · exact .refl s

theorem registerCondition_acts (s : State P) (predicate : P.Code) :
    Acts s (s.registerCondition predicate).1 := by
  unfold registerCondition
  split
  · split
    · exact .refl s
    · next h => exact .of_both (.promise _ _ h) (.misc _ _ _ _)
  · exact .refl s

end State

def Op.isOwn {Val Code : Type} : Op Val Code → Bool
  | .subscribe _ _ | .unsubscribe _ | .patched _ | .deprecatePatch _ => true
  | _ => false

/-- What an operation can do: act and reply, suspend on a pending future, or buffer
a terminal command and abort. The operations on observers and patches do what is
their own. -/
def Performed.Spec (s : State P) (own : Bool) : Performed P → Prop
  | .reply s' _ =>
    match own with
    | true => s.Own s'
    | false => Acts s s'
  | .suspend f => s.sched.live = true ∧
      ∃ waiters observers, s.sched.cellState f = some (.pending waiters observers)
  | .abort s' => ∃ command : Command, command.isTerminal = true ∧
      s' = { s with ctx := s.ctx.terminate command }

variable {s s' : State P} {c c' : Context P}

/-- The reply to an operation on observers or patches. -/
theorem Performed.Spec.of_own {own : Bool} {r : Performed P} {resp : Resp P.Val} (h : r.Spec s own)
    (hown : own = true) (hr : r = .reply s' resp) : s.Own s' := by
  rw [hr, hown] at h
  exact h

namespace State

theorem inContext_spec {s : State P} {message : String} {r : State P × Resp P.Val}
    (h : Acts s r.1) : (Performed.inContext s message r).Spec s false := by
  unfold Performed.inContext
  split
  · exact h
  · exact .refl s

theorem orRaise_spec {s : State P} {message : String} {r : Performed P} (own : Bool)
    (h : r.Spec s own) : (Performed.orRaise s message r).Spec s own := by
  unfold Performed.orRaise
  split
  · exact h
  · cases own with
    | true => exact .refused
    | false => exact .refl s

theorem drawRandom_acts {α : Type} (s : State P) (invalid : Option String)
    (draw : BitVec 64 → BitVec 64 × α) (value : α → Ret P.Val) :
    Acts s (Performed.ofDraw s value (s.ctx.drawRandom invalid draw)).1 := by
  unfold Context.drawRandom
  split
  · exact .refl s
  · split
    · exact .refl s
    · split
      · exact .refl s
      · exact .of_ctx (.misc _ _ _ _)

theorem upsertSearchAttributes_acts (s : State P) (attributes : List (String × Payload)) :
    Acts s { s with ctx := (s.ctx.upsertSearchAttributes attributes).1 } := by
  unfold Context.upsertSearchAttributes
  split
  · exact .refl s
  · split
    · exact .refl s
    · exact .of_ctx (.emit _ rfl)

theorem await_spec (s : State P) (f : Nat) : (s.await f).Spec s false := by
  unfold await
  split
  · exact .refl s
  · next waiters observers h =>
    split
    · next hlive => exact ⟨hlive, waiters, observers, h⟩
    · exact .refl s
  · exact .refl s

/-- **What an operation of workflow code can do**: act on the execution and reply, suspend the fiber
on a pending future, or buffer a terminal command and abort. Invariants are proved about these
updates, not about the operations. -/
theorem perform_spec (s : State P) (op : Op P.Val P.Code) : (s.perform op).Spec s op.isOwn := by
  cases op with
  | await f => exact s.await_spec f
  | peek f => exact .refl s
  | subscribe f observer => exact .link (.subscribe f observer)
  | unsubscribe id => exact .link (.unsubscribe id)
  | enqueue code => exact .of_sched (.enqueue (.callback code) rfl)
  | resolved => exact .refl s
  | createSignal => exact inContext_spec s.createSignal_acts
  | signal f => exact s.signal_acts f
  | conditionGuard => exact inContext_spec (.refl s)
  | registerCondition predicate => exact s.registerCondition_acts predicate
  | startTimer milliseconds => exact inContext_spec (s.startTimer_acts milliseconds)
  | cancelTimer seq => exact s.cancelTimer_acts seq
  | scheduleActivity r decode => exact inContext_spec (s.scheduleActivity_acts r decode)
  | scheduleLocalActivity r decode =>
    exact inContext_spec (s.scheduleLocalActivity_acts r decode)
  | cancelActivity seq => exact s.cancelActivity_acts seq
  | startChildWorkflow r decode => exact inContext_spec (s.startChildWorkflow_acts r decode)
  | cancelChildWorkflow seq reason => exact s.cancelChildWorkflow_acts seq reason
  | signalExternalWorkflow workflowId runId signalName input childOnly headers =>
    exact inContext_spec (s.signalExternalWorkflow_acts ..)
  | cancelExternalWorkflow workflowId runId reason =>
    exact inContext_spec (s.cancelExternalWorkflow_acts ..)
  | patched patchId =>
    exact orRaise_spec (r := .reply _ _) true (.patch (.callPatchApi patchId .active))
  | deprecatePatch patchId =>
    exact orRaise_spec (r := .reply _ _) true (.patch (.callPatchApi patchId .deprecated))
  | upsertSearchAttributes attributes =>
    exact orRaise_spec (r := .reply _ _) false (s.upsertSearchAttributes_acts attributes)
  | randomInt bound => exact inContext_spec (s.drawRandom_acts ..)
  | randomFloat => exact inContext_spec (s.drawRandom_acts ..)
  | randomBytes length => exact inContext_spec (s.drawRandom_acts ..)
  | continueAsNew workflowType input =>
    exact orRaise_spec (r := .abort _) false ⟨.continueAsNew workflowType input, rfl, rfl⟩
  | continueAsNewFailed e =>
    exact orRaise_spec (r := .abort _) false ⟨.failWorkflow e.continueAsNewEncode, rfl, rfl⟩
  | inOwnerTurn => exact .refl s
  | isReplaying => exact .refl s

/-! ### Resolutions

The jobs that resolve an operation. All of them act and then start at most one decoder; only a retry
timer that fires is an update of its own. -/

end State

/-- Code the job pass or the idle check calls: queries, decoders and predicates. -/
def Frame.isAttached : Frame P → Bool
  | .predicate _ | .query _ _ | .decodeActivity _ | .decodeChild _ => true
  | _ => false

/-- A resolution acts on `s`, and the code it starts is attached to the job pass. -/
def Applied.From (s : State P) : Applied P → Prop
  | .ok s' | .error s' _ | .raised s' _ => Acts s s'
  | .decode s' _ frame => Acts s s' ∧ frame.isAttached = true

namespace Applied.From

theorem after {s m : State P} {a : Applied P} (h : Acts s m) (ha : a.From m) : a.From s := by
  cases a with
  | ok | error | raised => exact h.trans ha
  | decode => exact ⟨h.trans ha.1, ha.2⟩

theorem ofReply {s : State P} {r : State P × Resp P.Val} (h : Acts s r.1) :
    (Applied.ofReply r).From s := by
  obtain ⟨s', resp⟩ := r
  cases resp <;> exact h

end Applied.From

namespace State

theorem resolveActivity_from (s : State P) (seq : Nat) (result : Except Error Payload) :
    (s.resolveActivity seq result).From s := by
  cases result with
  | error e => exact .ofReply (s.failActivity_acts seq e)
  | ok payload =>
    simp only [resolveActivity]
    split
    · exact .refl s
    · next a h => exact ⟨.of_ctx (.removeActivity h), rfl⟩

/-- A scheduler that is shut down drops the retry work and the job raises; the phase
has changed either way. -/
theorem spawnRetry_cases (s : State P) (ctx : Context P) (th : Thunk P) :
    s.spawnRetry ctx th = .ok { s with ctx, sched := s.sched.enqueue th } ∨
      ∃ x, s.spawnRetry ctx th = .raised { s with ctx, sched := s.sched.enqueue th } x := by
  unfold spawnRetry Scheduler.spawn
  cases hactive : s.sched.active with
  | true => exact .inl rfl
  | false =>
    rw [Scheduler.enqueue, hactive]
    exact .inr ⟨_, rfl⟩

theorem resolveLocalActivityBackoff_from (s : State P) (seq : Nat) (attempt ms : Int)
    (time : Option Timestamp) : (s.resolveLocalActivityBackoff seq attempt ms time).From s := by
  unfold resolveLocalActivityBackoff
  split
  · exact .refl s
  · next la hla =>
    split
    · exact .refl s
    · next hidle =>
      split
      · exact .refl s
      · split
        · exact .refl s
        · split
          · exact .refl s
          · next hattempt =>
            split
            · next hc =>
              obtain ⟨handle, hh, hn⟩ := Option.any_eq_true .. |>.mp hc
              refine .ofReply ?_
              cases h : s.ctx.activities seq with
              | none =>
                unfold cancelLocalActivityBackoff failActivity
                rw [Context.leaveBackoff_activities, h]
                exact .of_ctx (.leaveBackoff hla h)
              | some a =>
                have hacts := s.cancelLocalActivityBackoff_acts hh hla h
                rwa [Context.markCancelled_of_requested hh hn] at hacts
            · next hc =>
              have haccept := Acts.single (.acceptBackoff ms time hla (not_not.mp hidle)
                (Int.not_le.mp hattempt) (Bool.eq_false_iff.mpr hc))
              rcases s.spawnRetry_cases _ _ with heq | ⟨x, heq⟩
              · rw [heq]
                exact haccept
              · rw [heq]
                exact haccept

/-- The timer of a sleep settles its future and a stale retry timer does nothing; any
other retry timer fires. -/
theorem fireTimer_cases (s : State P) (n : Nat) : (s.fireTimer n).From s ∨
    ∃ seq attempt time la t, s.ctx.timers n = some (.backoff seq attempt time) ∧
      s.ctx.localActivities seq = some la ∧ la.backoff = .timer t ∧
      s.fireTimer n = State.spawnRetry { s with ctx := s.ctx.removeTimer n }
        ((s.ctx.removeTimer n).queueRetry n seq la) (.backoffRetry seq attempt time) := by
  unfold fireTimer
  split
  · exact .inl (.refl s)
  · next f h =>
    exact .inl (.ofReply (.trans (b := { s with ctx := s.ctx.removeTimer n })
      (.of_ctx (.fireSleep h)) (settle_acts _ _ _)))
  · next seq attempt time h =>
    unfold onTimerFired
    split
    · next hla =>
      refine .inl (.of_ctx (.fireStale h fun la t hla' => ?_))
      rw [show s.ctx.localActivities seq = none from hla] at hla'
      cases hla'
    · next la hla =>
      split
      · next t ht => exact .inr ⟨seq, attempt, time, la, t, h, hla, ht, rfl⟩
      · next hne =>
        refine .inl (.of_ctx (.fireStale h fun la' t hla' ht => ?_))
        have : la' = la := Option.some.inj (hla'.symm.trans hla)
        exact hne t (this ▸ ht)

/-- The child's resolver: the table update of the caller and the marked handle
are one update of the context. -/
theorem resolveChild_from (s : State P) (seq : Nat) (child : Child P)
    (result : Except Error Payload) :
    (s.resolveChild seq child result).From { s with ctx := s.ctx.markChildTerminal seq } := by
  cases result with
  | error e => exact .ofReply (settle_acts _ _ _)
  | ok payload => exact ⟨.refl _, rfl⟩

theorem settle_fst (s : State P) (f : Nat) (r : Result P.Val) :
    (s.settle f r).1 = { s with sched := (s.sched.resolve f r).getD s.sched } := by
  unfold settle
  split
  · next h => rw [h]; rfl
  · next h => rw [h]; rfl

theorem failUnstarted_from (s : State P) {seq : Nat} {child : Child P} (e : Error)
    (h : s.ctx.childWorkflows seq = some child) (hs : child.startRunId = none) :
    (s.failUnstarted seq child e).From s := by
  unfold failUnstarted
  have hfst := settle_fst { s with ctx := s.ctx.removeUnstarted seq } child.started (.error e)
  split
  · next s' x heq =>
    have hsettle := settle_acts { s with ctx := s.ctx.removeUnstarted seq } child.started (.error e)
    rw [heq] at hsettle
    exact .after (.of_ctx (.removeUnstarted h hs)) hsettle
  · next s' resp _ heq =>
    rw [heq] at hfst
    -- The two table updates come first; the futures do not depend on them.
    let marked : State P := { s with ctx := (s.ctx.removeUnstarted seq).markChildTerminal seq }
    have hs' : ({ s' with ctx := s'.ctx.markChildTerminal seq } : State P) =
        (marked.settle child.started (.error e)).1 := by
      rw [settle_fst, show s' = _ from hfst]
    have hchild := resolveChild_from s' seq child (.error e)
    rw [hs'] at hchild
    exact .after (.trans (b := marked) (.of_ctx (.failUnstarted h hs)) (settle_acts _ _ _)) hchild

theorem resolveChildWorkflowStart_from (s : State P) (seq : Nat)
    (result : Except Error String) : (s.resolveChildWorkflowStart seq result).From s := by
  unfold resolveChildWorkflowStart
  split
  · exact .refl s
  · next child h =>
    split
    · exact .refl s
    · next runId hs =>
      split
      · exact .refl s
      · exact .ofReply (.trans (b := { s with ctx := s.ctx.acknowledgeStart seq child runId })
          (.of_ctx (.acknowledgeStart runId h hs)) (settle_acts _ _ _))
    · next e hs => exact s.failUnstarted_from e h hs

theorem resolveChildWorkflow_from (s : State P) (seq : Nat) (result : Except Error Payload) :
    (s.resolveChildWorkflow seq result).From s := by
  unfold resolveChildWorkflow
  split
  · exact .refl s
  · next child h =>
    dsimp only
    split
    · exact .after (.of_ctx (.resolveStarted h))
        (resolveChild_from { s with ctx := s.ctx.removeStarted seq } seq child _)
    · exact .refl s
    · next e hs =>
      split
      · exact s.failUnstarted_from e h hs
      · exact .refl s

theorem resolveExternalWorkflow_from (s : State P) (operation : ExternalOperation) (seq : Nat)
    (result : Except Error Unit) : (s.resolveExternalWorkflow operation seq result).From s := by
  unfold resolveExternalWorkflow
  split
  · exact .refl s
  · next external h =>
    split
    · exact .refl s
    · exact .ofReply (.trans (b := { s with ctx := s.ctx.removeExternal seq })
        (.of_ctx (.removeExternal h)) (settle_acts _ _ _))

end State

/-! ### What the updates keep -/

/-- What one update keeps, a sequence of updates keeps. -/
theorem invariant_of_changes {α : Type} {r : α → α → Prop} {I : α → Prop}
    (hstep : ∀ a b, r a b → I a → I b) {a b : α} (h : ReflTransGen r a b) (ha : I a) : I b := by
  induction h with
  | refl => exact ha
  | tail _ hbc ih => exact hstep _ _ hbc ih

/-- Acting code neither stops nor aborts the scheduler. -/
theorem Scheduler.Act.frame {s s' : Scheduler P} (h : Act s s') :
    s'.active = s.active ∧ s'.running = s.running ∧ s'.abortRequested = s.abortRequested := by
  cases h with
  | enqueue th =>
    rw [enqueue_eq_enqueueAll, enqueueAll_frame]
    exact ⟨rfl, rfl, rfl⟩
  | promise e isSignal h =>
    obtain ⟨-, -, rfl⟩ := promise_eq_some h
    exact ⟨rfl, rfl, rfl⟩
  | resolve h =>
    obtain ⟨waiters, observers, -, rfl⟩ := resolve_eq_some h
    rw [enqueueAll_frame]
    exact ⟨rfl, rfl, rfl⟩
  | clearToken => exact ⟨rfl, rfl, rfl⟩
  | recordFailure x =>
    rw [recordFailure_frame]
    exact ⟨rfl, rfl, rfl⟩

/-- Observers come and go, the scheduler stays as it is. -/
theorem Scheduler.Link.frame {s s' : Scheduler P} (h : Link s s') :
    s'.active = s.active ∧ s'.running = s.running := by
  cases h with
  | subscribe f observer =>
    rcases s.subscribe_cases f observer with ⟨_, _, _, heq⟩ | ⟨_, _, heq, _⟩
    · rw [heq]
      exact ⟨rfl, rfl⟩
    · rw [heq, enqueueAll_frame]
      exact ⟨rfl, rfl⟩
  | unsubscribe id =>
    rcases s.unsubscribe_cases id with ⟨heq, _⟩ | ⟨_, _, _, _, _, heq⟩ <;>
      rw [heq] <;> exact ⟨rfl, rfl⟩

theorem Scheduler.Change.inactive {s s' : Scheduler P} (h : Change s s')
    (hs : s.active = false) : s'.active = false := by
  cases h with
  | act h => exact h.frame.1.trans hs
  | link h => exact h.frame.1.trans hs
  | tied h =>
    cases h with
    | pop h =>
      obtain ⟨n, rest, -, rfl⟩ := pop_eq_some h
      exact hs
    | addWaiter k frame hlive h => simp [Scheduler.live, hs] at hlive
    | teardown f h => exact (s.teardown_active f).trans hs
    | delivered u => exact (s.enqueue_active _).trans hs
    | beginRun | endRun => exact hs
  | enqueue th => exact (s.enqueue_active th).trans hs
  | deactivate => rfl
  | captureAbort => exact hs

theorem Context.Act.isSealed (h : Act c c') : c'.isSealed = c.isSealed := by
  cases h with
  | leaveBackoff => exact c.leaveBackoff_isSealed _ _
  | @cancelBackoff seq handle => exact (c.markCancelled seq handle).leaveBackoff_isSealed _ _
  | _ => rfl

/-- Next to its table a patch operation touches the command buffer, where it puts at
most one marker. -/
theorem Context.Patch.frame (h : Patch c c') :
    ∃ patches markers,
      c' = { c with
        patches
        commandsRev := markers ++ c.commandsRev
        trace := c.trace ++ markers.map (.emitted · none) } ∧
      (markers = [] ∨ c.isSealed = false ∧
        ∃ patchId deprecated, markers = [.setPatchMarker patchId deprecated]) := by
  cases h with
  | notifyHasPatch patchId =>
    refine ⟨(c.notifyHasPatch patchId).patches, [], ?_, .inl rfl⟩
    simp [Context.notifyHasPatch]
  | callPatchApi patchId mode =>
    unfold Context.callPatchApi
    split
    · exact ⟨c.patches, [], by simp, .inl rfl⟩
    · next hsealed =>
      dsimp only
      split
      · refine ⟨_, _, rfl, ?_⟩
        unfold Context.patchMarkers
        split
        · exact .inr ⟨Bool.eq_false_iff.mpr hsealed, patchId, _, rfl⟩
        · exact .inl rfl
      · exact ⟨c.patches, [], by simp, .inl rfl⟩

theorem Context.Patch.isSealed (h : Patch c c') : c'.isSealed = c.isSealed := by
  obtain ⟨_, _, rfl, -⟩ := h.frame
  rfl

theorem Context.Retry.isSealed (h : Retry c c') : c'.isSealed = c.isSealed := by
  cases h <;> rfl

theorem Context.Change.sealed (h : Change c c') (hc : c.isSealed = true) : c'.isSealed = true := by
  cases h with
  | act h => exact h.isSealed.trans hc
  | patch h => exact h.isSealed.trans hc
  | retry h => exact h.isSealed.trans hc
  | terminate | emitTerminal | close => rfl
  | _ => exact hc

/-! ### The scheduler and the context of an execution -/

/-- The scheduler and the context of `s'` are reached from those of `s` by
primitive updates. -/
structure Progress (s s' : State P) : Prop where
  sched : ReflTransGen Scheduler.Change s.sched s'.sched
  ctx : ReflTransGen Context.Change s.ctx s'.ctx

namespace Progress

theorem refl (s : State P) : Progress s s := ⟨.refl, .refl⟩

theorem trans {a b c : State P} (h : Progress a b) (h' : Progress b c) : Progress a c :=
  ⟨h.sched.trans h'.sched, h.ctx.trans h'.ctx⟩

variable {s s' : State P}

theorem of_sched (hs : Scheduler.Change s.sched s'.sched) (hc : s'.ctx = s.ctx) : Progress s s' :=
  ⟨.single hs, by rw [hc]⟩

/-- A shutdown after the updates `h` of the context. -/
theorem of_shutdown {s₁ : State P} (hs : s₁.sched = s.sched)
    (hc : ReflTransGen Context.Change s.ctx s₁.ctx.close) : Progress s s₁.contextShutdown.2 := by
  unfold State.contextShutdown
  dsimp only
  split
  · exact ⟨.single (hs ▸ .deactivate), hc⟩
  · exact ⟨hs ▸ .refl, hc⟩

/-- Progress neither reactivates the scheduler nor unseals the context. -/
theorem inactive (h : Progress s s') (hs : s.sched.active = false) : s'.sched.active = false :=
  invariant_of_changes (I := fun s => s.active = false) (fun _ _ h => h.inactive) h.sched hs

theorem sealed (h : Progress s s') (hs : s.ctx.isSealed = true) : s'.ctx.isSealed = true :=
  invariant_of_changes (I := fun c => c.isSealed = true) (fun _ _ h => h.sealed) h.ctx hs

end Progress

theorem State.Act.progress (h : Act s s') : Progress s s' := by
  cases h with
  | sched h => exact ⟨.single (.act h), .refl⟩
  | ctx h => exact ⟨.refl, .single (.act h)⟩
  | acceptBackoff ms time hla hidle _ hwanted =>
    exact ⟨.single (Scheduler.Change.enqueue (.backoffTimer _ _ _ _) rfl),
      .single (.retry (.acceptBackoff hla hidle hwanted))⟩
  | other => exact ⟨.refl, .refl⟩

theorem State.Fired.progress {n : Nat} (h : Fired n s s') : Progress s s' := by
  cases h with
  | retry h hla ht =>
    exact ⟨.single (Scheduler.Change.enqueue (.backoffRetry _ _ _) rfl),
      .single (.retry (.fireBackoff h hla ht))⟩

theorem State.Retried.progress (h : Retried s s') : Progress s s' := by
  cases h with
  | startBackoffTimer h hla hqueued =>
    exact ⟨.single (.tied (.pop h)), .single (.retry (.startBackoffTimer _ _ _ hla hqueued))⟩
  | retryLocalActivity h hla hqueued =>
    exact ⟨.single (.tied (.pop h)), .single (.retry (.retryLocalActivity _ _ hla hqueued))⟩
  | left h => exact ⟨.single (.tied (.pop h)), .refl⟩

theorem State.Own.progress (h : Own s s') : Progress s s' := by
  cases h with
  | link h => exact ⟨.single (.link h), .refl⟩
  | patch h => exact ⟨.refl, .single (.patch h)⟩
  | refused => exact .refl s

theorem State.Change.progress (h : Change s s') : Progress s s' := by
  cases h with
  | act h => exact h.progress
  | terminate command h aborted =>
    refine ⟨?_, .single (.terminate command h)⟩
    cases aborted
    · exact .refl
    · exact .single .captureAbort
  | takeCommands => exact ⟨.refl, .single .takeCommands⟩
  | discardCommands => exact ⟨.refl, .single .discardCommands⟩
  | returnNothing => exact ⟨.refl, .single .returnNothing⟩
  | clearTables h => exact ⟨.refl, .single (.clearTables h)⟩
  | setReplaying b => exact ⟨.refl, .single (.setReplaying b)⟩

theorem State.Ending.progress (h : Ending s s') : Progress s s'.contextShutdown.2 := by
  cases h with
  | emitTerminal command h => exact .of_shutdown rfl (.single (.emitTerminal command h))
  | shutdown => exact .of_shutdown rfl (.single .close)
  | finalize => exact .of_shutdown rfl ((ReflTransGen.single .takeCommands).tail .close)

theorem State.Move.progress {fires : Nat → Prop} (h : State.Move fires s s') : Progress s s' := by
  cases h with
  | change h => exact h.progress
  | answer h => cases h <;> exact ⟨.refl, .single (.respond _ _)⟩
  | accept u => exact ⟨.refl, (ReflTransGen.single (.respond _ .accepted)).tail (.updateBody _)⟩
  | ended h => exact h.progress
  | own h => exact h.progress
  | fired _ h => exact h.progress
  | retried h => exact h.progress
  | tied h => exact .of_sched (.tied h) rfl

end OcamlTemporal
