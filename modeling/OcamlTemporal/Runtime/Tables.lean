import OcamlTemporal.Runtime.Context

/-!
# OcamlTemporal.Runtime.Tables

The updates of the operation tables (`lib/runtime/workflow_context_store.ml`):
what starting, cancelling, resolving and retrying an operation does to the
context, without the futures it settles. `Runtime.Operations` and
`Runtime.Resolutions` combine them with the scheduler.
-/

namespace OcamlTemporal.Context

variable {P : Program}

/-! ### Starting operations -/

def saveTimer (c : Context P) (seq f : Nat) : Context P :=
  { c with
    timers := Function.update c.timers seq (some (.sleep f))
    timerHandles := Function.update c.timerHandles seq (some f) }

/-- Saves the entry and the handle of an activity; a local one also keeps its
request for the retries. -/
def saveActivity (c : Context P) (seq f : Nat) (decode : Payload → P.Code)
    (localRequest : Option ScheduledLocalActivity) : Context P :=
  { c with
    activities := Function.update c.activities seq (some ⟨f, decode⟩)
    activityHandles := Function.update c.activityHandles seq
      (some ⟨localRequest.isSome, false, false⟩)
    localActivities :=
      match localRequest with
      | some request =>
        Function.update c.localActivities seq (some ⟨request, 1, none, .idle⟩)
      | none => c.localActivities }

/-- Saves the entry and the handle of a child workflow. -/
def saveChild (c : Context P) (seq f started : Nat) (decode : Payload → P.Code) : Context P :=
  { c with
    childWorkflows := Function.update c.childWorkflows seq (some ⟨f, started, decode, none⟩)
    childHandles := Function.update c.childHandles seq (some ⟨false, false⟩) }

def saveExternal (c : Context P) (operation : ExternalOperation) (seq f : Nat) : Context P :=
  { c with
    externalWorkflows := Function.update c.externalWorkflows seq (some ⟨operation, f⟩) }

/-! ### Timers -/

def removeTimer (c : Context P) (seq : Nat) : Context P :=
  { c with
    timers := Function.update c.timers seq none
    trace := c.trace ++ [.resolverInvoked seq] }

/-! ### Activities -/

/-- Marks the handle of an activity terminal and drops its table entries, before
its resolver runs. -/
def removeActivity (c : Context P) (seq : Nat) : Context P :=
  { c with
    activities := Function.update c.activities seq none
    localActivities := Function.update c.localActivities seq none
    activityHandles := Function.update c.activityHandles seq
      ((c.activityHandles seq).map ({ · with terminal := true }))
    trace := c.trace ++ [.resolverInvoked seq] }

def markCancelled (c : Context P) (seq : Nat) (handle : ActivityHandle) : Context P :=
  { c with
    activityHandles := Function.update c.activityHandles seq
      (some { handle with cancellationRequested := true }) }

theorem markCancelled_of_requested {c : Context P} {seq : Nat} {handle : ActivityHandle}
    (hh : c.activityHandles seq = some handle) (hn : handle.cancellationRequested = true) :
    c.markCancelled seq handle = c := by
  have heq : ({ handle with cancellationRequested := true } : ActivityHandle) = handle := by
    rw [← hn]
  rw [markCancelled, heq, ← hh, Function.update_eq_self]

/-- Leaves the retry phase of a cancelled local activity. An outstanding timer is
removed and its cancellation emitted. -/
def leaveBackoff (c : Context P) (seq : Nat) (la : LocalActivity) : Context P :=
  let c : Context P :=
    match la.backoff with
    | .timer timerSeq =>
      ({ c with timers := Function.update c.timers timerSeq none } : Context P).emit
        (.cancelTimer timerSeq) (some seq)
    | _ => c
  { c with
    localActivities := Function.update c.localActivities seq
      (some { la with backoff := .idle })
    trace := c.trace ++ [.backoffCancelled seq la.backoff] }

@[simp] theorem leaveBackoff_activities (c : Context P) (seq : Nat) (la : LocalActivity) :
    (c.leaveBackoff seq la).activities = c.activities := by
  unfold leaveBackoff
  cases la.backoff <;> rfl

@[simp] theorem leaveBackoff_activityHandles (c : Context P) (seq : Nat) (la : LocalActivity) :
    (c.leaveBackoff seq la).activityHandles = c.activityHandles := by
  unfold leaveBackoff
  cases la.backoff <;> rfl

@[simp] theorem leaveBackoff_isSealed (c : Context P) (seq : Nat) (la : LocalActivity) :
    (c.leaveBackoff seq la).isSealed = c.isSealed := by
  unfold leaveBackoff
  cases la.backoff <;> rfl

@[simp] theorem leaveBackoff_childWorkflows (c : Context P) (seq : Nat) (la : LocalActivity) :
    (c.leaveBackoff seq la).childWorkflows = c.childWorkflows := by
  unfold leaveBackoff
  cases la.backoff <;> rfl

@[simp] theorem leaveBackoff_nextSequence (c : Context P) (seq : Nat) (la : LocalActivity) :
    (c.leaveBackoff seq la).nextSequence = c.nextSequence := by
  unfold leaveBackoff
  cases la.backoff <;> rfl

theorem leaveBackoff_localActivities (c : Context P) (seq : Nat) (la : LocalActivity) :
    (c.leaveBackoff seq la).localActivities =
      Function.update c.localActivities seq (some { la with backoff := .idle }) := by
  unfold leaveBackoff
  cases la.backoff <;> rfl

theorem leaveBackoff_timers {c : Context P} {seq t : Nat} {la : LocalActivity} {timer : Timer}
    (h : (c.leaveBackoff seq la).timers t = some timer) : c.timers t = some timer := by
  unfold leaveBackoff at h
  cases hb : la.backoff with
  | timer u =>
    rw [hb] at h
    have h : Function.update c.timers u none t = some timer := h
    by_cases htu : t = u
    · subst htu
      simp at h
    · rwa [Function.update_of_ne htu] at h
  | idle | timerQueued | retryQueued =>
    rw [hb] at h
    exact h

def acceptBackoff (c : Context P) (seq : Nat) (la : LocalActivity) : Context P :=
  { c with
    localActivities := Function.update c.localActivities seq
      (some { la with backoff := .timerQueued })
    trace := c.trace ++ [.backoffAccepted seq] }

def beginBackoffTimer (c : Context P) (seq : Nat) (la : LocalActivity) (attempt : Int)
    (backoffMilliseconds : Int) (originalScheduleTime : Option Timestamp) : Context P :=
  let c := c.allocateSequence
  let timerSeq := c.nextSequence
  ({ c with
      localActivities := Function.update c.localActivities seq
        (some { la with backoff := .timer timerSeq })
      timers := Function.update c.timers timerSeq
        (some (.backoff seq attempt originalScheduleTime)) } : Context P).emit
    (.startTimer timerSeq backoffMilliseconds) (some seq)

/-- The queued work that starts a retry timer; a no-op once the activity left
the phase. -/
def startBackoffTimer (c : Context P) (seq : Nat) (attempt : Int) (backoffMilliseconds : Int)
    (originalScheduleTime : Option Timestamp) : Context P :=
  match c.localActivities seq with
  | none => c
  | some la =>
    if la.backoff = .timerQueued then
      c.beginBackoffTimer seq la attempt backoffMilliseconds originalScheduleTime
    else c

theorem startBackoffTimer_cases (c : Context P) (seq : Nat) (attempt ms : Int)
    (time : Option Timestamp) :
    c.startBackoffTimer seq attempt ms time = c ∨
      ∃ la, c.localActivities seq = some la ∧ la.backoff = .timerQueued ∧
        c.startBackoffTimer seq attempt ms time = c.beginBackoffTimer seq la attempt ms time := by
  unfold startBackoffTimer
  split
  · exact .inl rfl
  · next la hla =>
    split
    · next hqueued => exact .inr ⟨la, hla, hqueued, rfl⟩
    · exact .inl rfl

def queueRetry (c : Context P) (timerSeq seq : Nat) (la : LocalActivity) : Context P :=
  { c with
    localActivities := Function.update c.localActivities seq
      (some { la with backoff := .retryQueued })
    trace := c.trace ++ [.backoffFired seq timerSeq] }

def scheduleRetry (c : Context P) (seq : Nat) (la : LocalActivity) (attempt : Int)
    (originalScheduleTime : Option Timestamp) : Context P :=
  ({ c with
      localActivities := Function.update c.localActivities seq
        (some { la with backoff := .idle, attempt, originalScheduleTime }) } : Context P).emit
    (.scheduleLocalActivity seq attempt originalScheduleTime la.request)

/-- The queued work that schedules the next attempt; a no-op once the activity
left the phase. -/
def retryLocalActivity (c : Context P) (seq : Nat) (attempt : Int)
    (originalScheduleTime : Option Timestamp) : Context P :=
  match c.localActivities seq with
  | none => c
  | some la =>
    if la.backoff = .retryQueued then c.scheduleRetry seq la attempt originalScheduleTime else c

theorem retryLocalActivity_cases (c : Context P) (seq : Nat) (attempt : Int)
    (time : Option Timestamp) :
    c.retryLocalActivity seq attempt time = c ∨
      ∃ la, c.localActivities seq = some la ∧ la.backoff = .retryQueued ∧
        c.retryLocalActivity seq attempt time = c.scheduleRetry seq la attempt time := by
  unfold retryLocalActivity
  split
  · exact .inl rfl
  · next la hla =>
    split
    · next hqueued => exact .inr ⟨la, hla, hqueued, rfl⟩
    · exact .inl rfl

/-! ### Child and external workflows -/

def cancelChild (c : Context P) (seq : Nat) (reason : String) (handle : ChildHandle) :
    Context P :=
  let c := c.emit (.cancelChildWorkflow seq reason)
  { c with
    childHandles := Function.update c.childHandles seq
      (some { handle with cancellationRequested := true }) }

/-- Records the run ID of a started child, before its start resolver runs. -/
def acknowledgeStart (c : Context P) (seq : Nat) (child : Child P) (runId : String) : Context P :=
  { c with
    childWorkflows := Function.update c.childWorkflows seq
      (some { child with startRunId := some runId })
    trace := c.trace ++ [.startResolverInvoked seq] }

/-- Drops the entry of a child that never started, before its start resolver
runs. -/
def removeUnstarted (c : Context P) (seq : Nat) : Context P :=
  { c with
    childWorkflows := Function.update c.childWorkflows seq none
    trace := c.trace ++ [.startResolverInvoked seq] }

def removeStarted (c : Context P) (seq : Nat) : Context P :=
  { c with childWorkflows := Function.update c.childWorkflows seq none }

/-- Marks the handle of a child terminal, as its result resolver does first. -/
def markChildTerminal (c : Context P) (seq : Nat) : Context P :=
  { c with
    childHandles := Function.update c.childHandles seq
      ((c.childHandles seq).map ({ · with terminal := true }))
    trace := c.trace ++ [.resolverInvoked seq] }

/-- Drops the entry of an external operation, before its resolver runs. -/
def removeExternal (c : Context P) (seq : Nat) : Context P :=
  { c with
    externalWorkflows := Function.update c.externalWorkflows seq none
    trace := c.trace ++ [.resolverInvoked seq] }

end OcamlTemporal.Context
