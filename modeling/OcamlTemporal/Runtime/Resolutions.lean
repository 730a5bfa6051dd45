import OcamlTemporal.Runtime.Operations

/-!
# OcamlTemporal.Runtime.Resolutions

How activation jobs and queued retry work change the operation tables
(`lib/runtime/workflow_context_store.ml`, from `resolve_activity` and
`resolve_local_activity_backoff` on). A resolution that carries a payload runs
the user's decoder before it settles the future, so it is handed back as code to
run.
-/

namespace OcamlTemporal

/-- The outcome of a job-side resolution. -/
inductive Applied (P : Program)
  | ok (s : State P)
  | error (s : State P) (e : Error)
  | raised (s : State P) (exn : Exn)
  -- the decoder of a result still has to run
  | decode (s : State P) (code : P.Code) (frame : Frame P)

def Applied.ofReply {P : Program} : State P × Resp P.Val → Applied P
  | (s, .error e) => .error s e
  | (s, .raised x) => .raised s x
  | (s, _) => .ok s

namespace State

variable {P : Program}

/-- Completes an activity. The entry is gone before its resolver runs. -/
def resolveActivity (s : State P) (seq : Nat) : Except Error Payload → Applied P
  | .error e => .ofReply (s.failActivity seq e)
  | .ok payload =>
    match s.ctx.activities seq with
    | none => .error s (unknownActivity seq)
    | some a =>
      .decode { s with ctx := s.ctx.removeActivity seq } (a.decode payload)
        (.decodeActivity a.future)

/-- Queues retry work after a phase change; a scheduler that is shut down raises. -/
def spawnRetry (s : State P) (ctx : Context P) (th : Thunk P) : Applied P :=
  match s.sched.spawn th with
  | none => .raised { s with ctx } Scheduler.shutDown
  | some sched => .ok { s with sched, ctx }

/-- Accepts the retry delay Core requested and queues the timer. -/
def resolveLocalActivityBackoff (s : State P) (seq : Nat) (attempt : Int)
    (backoffMilliseconds : Int) (originalScheduleTime : Option Timestamp) : Applied P :=
  match s.ctx.localActivities seq with
  | none =>
    .error s (.bridge ("local activity backoff references unknown sequence " ++ toString seq))
  | some la =>
    if la.backoff ≠ .idle then
      .error s (.bridge ("duplicate local activity backoff sequence " ++ toString seq))
    else if attempt ≤ 0 then
      .error s (.bridge
        ("local activity backoff attempt " ++ toString attempt ++ " must be positive"))
    else if backoffMilliseconds < 0 then
      .error s (.bridge ("local activity backoff duration " ++ toString backoffMilliseconds ++
        " must be non-negative"))
    else if attempt ≤ la.attempt then
      .error s (.bridge ("local activity backoff attempt " ++ toString attempt ++
        " does not advance sequence " ++ toString seq))
    else if (s.ctx.activityHandles seq).any (·.cancellationRequested) then
      .ofReply (s.cancelLocalActivityBackoff seq la)
    else
      s.spawnRetry (s.ctx.acceptBackoff seq la)
        (.backoffTimer seq attempt backoffMilliseconds originalScheduleTime)

/-- The callback of a retry timer, run during the job pass. -/
def onTimerFired (s : State P) (timerSeq seq : Nat) (attempt : Int)
    (originalScheduleTime : Option Timestamp) : Applied P :=
  match s.ctx.localActivities seq with
  | none => .ok s
  | some la =>
    match la.backoff with
    | .timer _ =>
      s.spawnRetry (s.ctx.queueRetry timerSeq seq la)
        (.backoffRetry seq attempt originalScheduleTime)
    | _ => .ok s

def fireTimer (s : State P) (seq : Nat) : Applied P :=
  match s.ctx.timers seq with
  | none => .error s (.bridge ("unknown or duplicate timer sequence " ++ toString seq))
  | some (.sleep f) =>
    .ofReply (settle { s with ctx := s.ctx.removeTimer seq } f (.ok .unit))
  | some (.backoff la attempt originalScheduleTime) =>
    onTimerFired { s with ctx := s.ctx.removeTimer seq } seq la attempt originalScheduleTime

/-! ### Child and external workflows -/

def resolveChild (s : State P) (seq : Nat) (child : Child P) : Except Error Payload → Applied P
  | .error e =>
    .ofReply (settle { s with ctx := s.ctx.markChildTerminal seq } child.future (.error e))
  | .ok payload =>
    .decode { s with ctx := s.ctx.markChildTerminal seq } (child.decode payload)
      (.decodeChild child.future)

/-- Fails both stages of a child that never started. -/
def failUnstarted (s : State P) (seq : Nat) (child : Child P) (e : Error) : Applied P :=
  match settle { s with ctx := s.ctx.removeUnstarted seq } child.started (.error e) with
  | (s, .raised x) => .raised s x
  | (s, _) => s.resolveChild seq child (.error e)

/-- Records the start acknowledgment, or fails the child that never started. -/
def resolveChildWorkflowStart (s : State P) (seq : Nat) (result : Except Error String) :
    Applied P :=
  match s.ctx.childWorkflows seq with
  | none =>
    .error s (.bridge ("unknown or duplicate child workflow start sequence " ++ toString seq))
  | some child =>
    match child.startRunId, result with
    | some _, _ =>
      .error s (.bridge ("duplicate child workflow start sequence " ++ toString seq))
    | none, .ok runId =>
      if runId = "" then .error s (.bridge "child workflow start returned an empty run ID")
      else
        .ofReply (settle { s with ctx := s.ctx.acknowledgeStart seq child runId } child.started
          (.ok (.text runId)))
    | none, .error e => s.failUnstarted seq child e

/-- Completes a child. Before its start acknowledgment only a cancellation the
workflow requested may. -/
def resolveChildWorkflow (s : State P) (seq : Nat) (result : Except Error Payload) : Applied P :=
  match s.ctx.childWorkflows seq with
  | none => .error s (.bridge ("unknown or duplicate child workflow sequence " ++ toString seq))
  | some child =>
    let early : Applied P :=
      .error s (.bridge ("child workflow sequence " ++ toString seq ++
        " resolved before start acknowledgment"))
    match child.startRunId, result with
    | some _, _ => resolveChild { s with ctx := s.ctx.removeStarted seq } seq child result
    | none, .ok _ => early
    | none, .error e =>
      if (s.ctx.childHandles seq).any (·.cancellationRequested) ∧ e.category = .cancelled then
        s.failUnstarted seq child e
      else early

/-- Completes an external operation of the expected kind. -/
def resolveExternalWorkflow (s : State P) (operation : ExternalOperation) (seq : Nat)
    (result : Except Error Unit) : Applied P :=
  match s.ctx.externalWorkflows seq with
  | none => .error s (.bridge ("unknown or duplicate external workflow sequence " ++ toString seq))
  | some external =>
    if external.operation ≠ operation then
      .error s (.bridge ("external workflow sequence " ++ toString seq ++
        " resolved with the wrong operation"))
    else
      .ofReply (settle { s with ctx := s.ctx.removeExternal seq } external.future
        (match result with | .ok _ => .ok .unit | .error e => .error e))

end State

end OcamlTemporal
