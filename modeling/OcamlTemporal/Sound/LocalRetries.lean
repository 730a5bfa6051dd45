import OcamlTemporal.Runtime.Script
import OcamlTemporal.Sound.LocalActivities
import OcamlTemporal.Sound.Terminal

/-!
# OcamlTemporal.Sound.LocalRetries

The retries of a local activity as they can be seen from outside. The protocol of
`Sound.LocalActivities` is about a log that the context keeps of itself. Here the log is
tied to the commands that were returned and buffered, to the tables and to the jobs
(**`LocalTies`**), and a cancellation is what the workflow code is answered: once
`cancelActivity` has replied `Ok`, no attempt is scheduled and no retry timer started at any
later point of the run (**`CancelAccepted`**). The result is **`local_activity_retries`**.
-/

namespace OcamlTemporal

variable {P : Program}

/-! ### The log and the commands

The log is the model's own record. It is tied to what leaves the context: every command
that was taken is in the trace, in its order, and the events that move a retry on are
recorded by the updates that are meant to make them and by no other. -/

def emittedCommands (log : List ContextEvent) : List Command :=
  log.filterMap fun
    | .emitted command _ => some command
    | _ => none

theorem emittedCommands_append (log more : List ContextEvent) :
    emittedCommands (log ++ more) = emittedCommands log ++ emittedCommands more :=
  List.filterMap_append

/-- The events that move a retry on: schedule and start-timer commands, and a retry
timer that fired. -/
def ContextEvent.isRetry : ContextEvent → Bool
  | .emitted (.scheduleLocalActivity _ _ _ _) _ | .emitted (.startTimer _ _) _
  | .backoffFired _ _ => true
  | _ => false

namespace Context

/-- From `c` to `c'` the events `es` were recorded and just their commands buffered. -/
structure Wrote (c c' : Context P) (es : List ContextEvent) : Prop where
  trace : c'.trace = c.trace ++ es
  history : c'.history = c.history ++ emittedCommands es
  sequence : c.nextSequence ≤ c'.nextSequence

/-- Of the events that move a retry on, at most the given one was recorded. -/
def Adds (e : Option ContextEvent) (c c' : Context P) : Prop :=
  ∃ es, Wrote c c' es ∧ ∀ x ∈ es, x.isRetry = true → e = some x

def Quiet (c c' : Context P) : Prop := Adds none c c' ∧ c'.timerHandles = c.timerHandles

theorem history_emit (c : Context P) (command : Command) (owner : Option Nat) :
    (c.emit command owner).history =
      c.history ++ if c.takes command = true then [command] else [] := by
  unfold history Context.emit
  split <;> simp

namespace Wrote

variable {c c' : Context P}

theorem record (es : List ContextEvent) (htrace : c'.trace = c.trace ++ es)
    (hnone : emittedCommands es = []) (hhistory : c'.history = c.history)
    (hn : c.nextSequence ≤ c'.nextSequence) : Wrote c c' es :=
  ⟨htrace, by rw [hhistory, hnone, List.append_nil], hn⟩

theorem emit {es : List ContextEvent} (h : Wrote c c' es) (command : Command)
    (owner : Option Nat) : ∃ more, Wrote c (c'.emit command owner) (es ++ more) ∧
      ∀ x ∈ more, x = .emitted command owner := by
  have hhistory := c'.history_emit command owner
  by_cases htake : c'.takes command = true
  · refine ⟨[.emitted command owner], ⟨?_, ?_, h.sequence⟩, by simp⟩
    · simp [Context.emit, htake, h.trace]
    · rw [hhistory, if_pos htake, h.history, emittedCommands_append, List.append_assoc]
      rfl
  · refine ⟨[], ⟨?_, ?_, h.sequence⟩, by simp⟩
    · simp [Context.emit, htake, h.trace]
    · rw [hhistory, if_neg htake, h.history, List.append_nil, List.append_nil]

end Wrote

namespace Adds

variable {c c' : Context P} {e : Option ContextEvent}

theorem mem {x : ContextEvent} (h : Adds e c c') (hx : x ∈ c'.trace) (hretry : x.isRetry = true) :
    x ∈ c.trace ∨ e = some x := by
  obtain ⟨es, hwrote, honly⟩ := h
  rw [hwrote.trace] at hx
  exact (List.mem_append.mp hx).imp id fun hx => honly x hx hretry

/-- A command that moves a retry on, after updates that are no commands. -/
theorem emit {c₁ : Context P} {es : List ContextEvent} (h : Wrote c c₁ es)
    (hes : ∀ x ∈ es, x.isRetry = false) (command : Command) (owner : Option Nat) :
    Adds (some (.emitted command owner)) c (c₁.emit command owner) := by
  obtain ⟨more, hwrote, hmore⟩ := h.emit command owner
  refine ⟨es ++ more, hwrote, fun x hx hretry => ?_⟩
  rcases List.mem_append.mp hx with hx | hx
  · rw [hes x hx] at hretry
    cases hretry
  · rw [hmore x hx]

end Adds

namespace Quiet

variable {c c' c'' : Context P}

theorem record (es : List ContextEvent) (htrace : c'.trace = c.trace ++ es)
    (hnone : emittedCommands es = []) (hquiet : ∀ x ∈ es, x.isRetry = false)
    (hhistory : c'.history = c.history) (hn : c.nextSequence ≤ c'.nextSequence)
    (hhandles : c'.timerHandles = c.timerHandles) : Quiet c c' := by
  refine ⟨⟨es, .record es htrace hnone hhistory hn, fun x hx hretry => ?_⟩, hhandles⟩
  rw [hquiet x hx] at hretry
  cases hretry

theorem same (htrace : c'.trace = c.trace) (hhistory : c'.history = c.history)
    (hn : c'.nextSequence = c.nextSequence) (hhandles : c'.timerHandles = c.timerHandles) :
    Quiet c c' :=
  .record [] (htrace.trans (List.append_nil _).symm) rfl (by simp) hhistory (Nat.le_of_eq hn.symm)
    hhandles

theorem trans (h : Quiet c c') (h' : Quiet c' c'') : Quiet c c'' := by
  obtain ⟨⟨es, hes, hquiet⟩, hhandles⟩ := h
  obtain ⟨⟨es', hes', hquiet'⟩, hhandles'⟩ := h'
  refine ⟨⟨es ++ es', ⟨?_, ?_, Nat.le_trans hes.sequence hes'.sequence⟩, fun x hx => ?_⟩,
    hhandles'.trans hhandles⟩
  · rw [hes'.trace, hes.trace, List.append_assoc]
  · rw [hes'.history, hes.history, emittedCommands_append, List.append_assoc]
  · exact (List.mem_append.mp hx).elim (hquiet x) (hquiet' x)

theorem emit (h : Quiet c c') (command : Command) (owner : Option Nat)
    (hcommand : (ContextEvent.emitted command owner).isRetry = false) :
    Quiet c (c'.emit command owner) := by
  obtain ⟨⟨es, hes, hquiet⟩, hhandles⟩ := h
  obtain ⟨more, hwrote, hmore⟩ := hes.emit command owner
  refine ⟨⟨es ++ more, hwrote, fun x hx hretry => ?_⟩, hhandles⟩
  rcases List.mem_append.mp hx with hx | hx
  · exact hquiet x hx hretry
  · rw [hmore x hx, hcommand] at hretry
    cases hretry

theorem refl : Quiet c c := .same rfl rfl rfl rfl

theorem takeCommands (c : Context P) : Quiet c c.takeCommands :=
  .same rfl (by simp [history, Context.takeCommands]) rfl rfl

theorem emitTerminal (c : Context P) {command : Command} (h : command.isTerminal = true) :
    Quiet c (c.emit command) :=
  refl.emit _ _ (by cases command <;> first | rfl | cases h)

theorem leaveBackoff (c : Context P) (seq : Nat) (la : LocalActivity) :
    Quiet c (c.leaveBackoff seq la) := by
  have hleft (c₁ : Context P) (p : Backoff) : Quiet c₁ { c₁ with
      localActivities := Function.update c₁.localActivities seq (some { la with backoff := .idle })
      trace := c₁.trace ++ [.backoffCancelled seq p] } :=
    .record [_] rfl rfl (by simp [ContextEvent.isRetry]) rfl (Nat.le_refl _) rfl
  unfold Context.leaveBackoff
  cases hb : la.backoff with
  | timer t =>
    have hstopped : Quiet c { c with timers := Function.update c.timers t none } :=
      .same rfl rfl rfl rfl
    exact (hstopped.emit (.cancelTimer t) (some seq) rfl).trans (hleft _ _)
  | idle | timerQueued | retryQueued => exact hleft c _

end Quiet

variable {c c' : Context P} {fires : Nat → Prop}

/-- What operations and jobs record: starting a timer and scheduling a local activity
apart, nothing moves a retry on. -/
theorem Act.adds (h : Act c c') : Quiet c c' ∨
    c'.nextSequence = c.nextSequence + 1 ∧
      ((∃ f ms, Adds (some (.emitted (.startTimer (c.nextSequence + 1) ms) none)) c c' ∧
        c'.timerHandles = Function.update c.timerHandles (c.nextSequence + 1) (some f)) ∨
      ∃ r, Adds (some (.emitted (.scheduleLocalActivity (c.nextSequence + 1) 1 none r) none)) c c' ∧
        c'.timerHandles = c.timerHandles) := by
  have hreserved {c₁ : Context P} (htrace : c₁.trace = c.allocateSequence.trace)
      (hhistory : c₁.history = c.history) (hn : c₁.nextSequence = c.nextSequence + 1) :
      Wrote c c₁ [.allocated (c.nextSequence + 1)] :=
    .record _ htrace rfl hhistory (hn ▸ Nat.le_succ _)
  have hquiet {c₁ : Context P} (htrace : c₁.trace = c.allocateSequence.trace)
      (hhistory : c₁.history = c.history) (hn : c₁.nextSequence = c.nextSequence + 1)
      (hhandles : c₁.timerHandles = c.timerHandles) : Quiet c c₁ :=
    .record _ htrace rfl (by simp [ContextEvent.isRetry]) hhistory (hn ▸ Nat.le_succ _) hhandles
  have hinvoked {c₁ : Context P} (seq : Nat) (htrace : c₁.trace = c.trace ++ [.resolverInvoked seq])
      (hhistory : c₁.history = c.history) (hn : c₁.nextSequence = c.nextSequence)
      (hhandles : c₁.timerHandles = c.timerHandles) : Quiet c c₁ :=
    .record _ htrace rfl (by simp [ContextEvent.isRetry]) hhistory (Nat.le_of_eq hn.symm) hhandles
  cases h with
  | allocate => exact .inl (hquiet rfl rfl rfl rfl)
  | startTimer f ms =>
    refine .inr ⟨rfl, .inl ⟨f, ms, .emit (hreserved ?_ ?_ ?_) (by simp [ContextEvent.isRetry]) _ _,
      rfl⟩⟩ <;> rfl
  | scheduleLocalActivity f decode r =>
    refine .inr ⟨rfl, .inr ⟨r, .emit (hreserved ?_ ?_ ?_) (by simp [ContextEvent.isRetry]) _ _,
      rfl⟩⟩ <;> rfl
  | scheduleActivity | startChild =>
    refine .inl (.emit (hquiet ?_ ?_ ?_ ?_) _ _ rfl) <;> rfl
  | startExternal operation f command hc =>
    refine .inl (.emit (hquiet ?_ ?_ ?_ ?_) _ _ ?_)
    case refine_5 => cases command <;> first | rfl | cases hc
    all_goals rfl
  | @cancelTimer seq =>
    have hremoved : Quiet c (c.removeTimer seq) := hinvoked seq rfl rfl rfl rfl
    exact .inl (hremoved.emit _ _ rfl)
  | fireSleep | fireStale | removeActivity | removeExternal =>
    exact .inl (hinvoked _ rfl rfl rfl rfl)
  | @requestCancel seq handle =>
    have hmarked : Quiet c (c.markCancelled seq handle) := .same rfl rfl rfl rfl
    exact .inl (hmarked.emit _ _ (by split <;> rfl))
  | @cancelBackoff seq handle la =>
    have hmarked : Quiet c (c.markCancelled seq handle) := .same rfl rfl rfl rfl
    refine .inl ((hmarked.trans (.leaveBackoff _ seq la)).trans ?_)
    exact .record [.resolverInvoked seq] rfl rfl (by simp [ContextEvent.isRetry]) rfl
      (Nat.le_refl _)
      rfl
  | @leaveBackoff seq la => exact .inl (.leaveBackoff c seq la)
  | @cancelChild seq reason handle =>
    exact .inl ((Quiet.refl.emit (.cancelChildWorkflow seq reason) none rfl).trans
      (.same rfl rfl rfl rfl))
  | @acknowledgeStart seq =>
    exact .inl (.record [.startResolverInvoked seq] rfl rfl (by simp [ContextEvent.isRetry]) rfl
      (Nat.le_refl _) rfl)
  | @failUnstarted seq =>
    exact .inl (.record [.startResolverInvoked seq, .resolverInvoked seq]
      (by simp [markChildTerminal, Context.removeUnstarted]) rfl
        (by simp [ContextEvent.isRetry]) rfl
      (Nat.le_refl _) rfl)
  | @removeUnstarted seq =>
    exact .inl (.record [.startResolverInvoked seq] rfl rfl (by simp [ContextEvent.isRetry]) rfl
      (Nat.le_refl _) rfl)
  | resolveStarted => exact .inl (hinvoked _ rfl rfl rfl rfl)
  | emit command hc =>
    exact .inl (Quiet.refl.emit _ _ (by cases command <;> first | rfl | cases hc))
  | misc => exact .inl (.same rfl rfl rfl rfl)

theorem Patch.quiet (h : Patch c c') : Quiet c c' := by
  obtain ⟨patches, markers, rfl, hmarkers⟩ := h.frame
  refine ⟨⟨markers.map (.emitted · none), ⟨rfl, ?_, Nat.le_refl _⟩, fun x hx hretry => ?_⟩, rfl⟩
  · rcases hmarkers with rfl | ⟨-, patchId, deprecated, rfl⟩ <;> simp [history, emittedCommands]
  · rcases hmarkers with rfl | ⟨-, patchId, deprecated, rfl⟩
    · cases hx
    · rw [List.mem_singleton.mp hx] at hretry
      cases hretry

/-- What one update records. Four updates move a retry on, each with one event; a fifth
starts the timer of a sleep, and its handle. Of the retry timers only those of `fires`
fire. -/
inductive Records (fires : Nat → Prop) (c : Context P) : Context P → Prop
  | quiet {c' : Context P} (h : Quiet c c') : Records fires c c'
  | sleep {c' : Context P} {f : Nat} {ms : Int}
      (h : Adds (some (.emitted (.startTimer (c.nextSequence + 1) ms) none)) c c')
      (hn : c'.nextSequence = c.nextSequence + 1)
      (hhandles : c'.timerHandles =
        Function.update c.timerHandles (c.nextSequence + 1) (some f)) : Records fires c c'
  | schedule {c' : Context P} {r : ScheduledLocalActivity}
      (h : Adds (some (.emitted (.scheduleLocalActivity (c.nextSequence + 1) 1 none r) none)) c c')
      (hhandles : c'.timerHandles = c.timerHandles) : Records fires c c'
  | start {c' : Context P} {seq : Nat} {ms : Int} {la : LocalActivity}
      (hla : c.localActivities seq = some la) (hq : la.backoff = .timerQueued)
      (h : Adds (some (.emitted (.startTimer (c.nextSequence + 1) ms) (some seq))) c c')
      (hn : c'.nextSequence = c.nextSequence + 1)
      (hhandles : c'.timerHandles = c.timerHandles) : Records fires c c'
  | fire {c' : Context P} {n seq : Nat} (hn : fires n)
      (h : Adds (some (.backoffFired seq n)) c c')
      (hhandles : c'.timerHandles = c.timerHandles) : Records fires c c'
  | retry {c' : Context P} {seq : Nat} {attempt : Int} {time : Option Timestamp}
      {la : LocalActivity} (hla : c.localActivities seq = some la)
      (hq : la.backoff = .retryQueued)
      (h : Adds (some (.emitted (.scheduleLocalActivity seq attempt time la.request) none)) c c')
      (hhandles : c'.timerHandles = c.timerHandles) : Records fires c c'

theorem Records.wrote (h : Records fires c c') : ∃ es, Wrote c c' es := by
  cases h with
  | quiet h => exact h.1.imp fun _ h => h.1
  | sleep h | schedule h | start _ _ h | fire _ h | retry _ _ h => exact h.imp fun _ h => h.1

theorem Act.records (h : Act c c') : Records fires c c' := by
  rcases h.adds with h | ⟨hn, ⟨f, ms, h, hhandles⟩ | ⟨r, h, hhandles⟩⟩
  · exact .quiet h
  · exact .sleep h hn hhandles
  · exact .schedule h hhandles

theorem fireBackoff_adds (c : Context P) (n seq : Nat) (la : LocalActivity) :
    Adds (some (.backoffFired seq n)) c ((c.removeTimer n).queueRetry n seq la) := by
  refine ⟨[.resolverInvoked n, .backoffFired seq n], .record _ ?_ rfl rfl (Nat.le_refl _),
    fun x hx hretry => ?_⟩
  · simp [queueRetry, Context.removeTimer]
  · rcases List.mem_pair.mp hx with rfl | rfl
    · cases hretry
    · rfl

end Context

open Context (Quiet Records)

variable {fires : Nat → Prop} {s s' : State P} {c : Config P} {seq : Nat}

theorem State.Change.records (h : State.Change s s') :
    Records fires s.ctx s'.ctx ∨
      s'.ctx = s.ctx.discardCommands ∧ (s.sched.active = false ∨ s.taskFailure.isSome = true) := by
  cases h with
  | act h =>
    cases h with
    | ctx h => exact .inl h.records
    | @acceptBackoff seq la =>
      exact .inl (.quiet (.record [.backoffAccepted seq] rfl rfl (by simp [ContextEvent.isRetry])
        rfl (Nat.le_refl _) rfl))
    | sched | other => exact .inl (.quiet .refl)
  | terminate command h =>
    exact .inl (.quiet ((Quiet.emitTerminal _ h).trans (.same rfl rfl rfl rfl)))
  | takeCommands => exact .inl (.quiet (.takeCommands _))
  | discardCommands hwhy => exact .inr ⟨rfl, hwhy⟩
  | returnNothing => exact .inl (.quiet (.same rfl (by simp [Context.history]) rfl rfl))
  | clearTables =>
    exact .inl (.quiet (.record [.shutDown] rfl rfl (by simp [ContextEvent.isRetry]) rfl
      (Nat.le_refl _) rfl))
  | setReplaying => exact .inl (.quiet (.same rfl rfl rfl rfl))

theorem State.Ending.quiet {e : State P} (h : State.Ending s e) :
    Quiet s.ctx e.contextShutdown.2.ctx := by
  have hclose (c : Context P) : Quiet c c.close := .same rfl rfl rfl rfl
  have hshut : e.contextShutdown.2.ctx = e.ctx.close := by
    unfold State.contextShutdown
    dsimp only
    split <;> rfl
  rw [hshut]
  cases h with
  | emitTerminal command hc => exact (Quiet.emitTerminal _ hc).trans (hclose _)
  | shutdown => exact hclose _
  | finalize => exact (Quiet.takeCommands _).trans (hclose _)

/-- **What an update of an execution records.** Discarded commands stay in the trace, and
they are discarded after a shutdown only; every other update buffers what it records. -/
theorem State.Move.records (h : State.Move fires s s') :
    Records fires s.ctx s'.ctx ∨
      s'.ctx = s.ctx.discardCommands ∧ (s.sched.active = false ∨ s.taskFailure.isSome = true) := by
  cases h with
  | change h => exact h.records
  | answer h =>
    cases h with
    | refuse | finish => exact .inl (.quiet (Quiet.refl.emit _ _ rfl))
  | accept u =>
    refine .inl (.quiet ((Quiet.refl.emit (.updateResponse u.protocolInstanceId .accepted) none
      rfl).trans ?_))
    exact .record [.updateBody u.protocolInstanceId] rfl rfl (by simp [ContextEvent.isRetry]) rfl
      (Nat.le_refl _) rfl
  | ended h => exact .inl (.quiet h.quiet)
  | own h =>
    cases h with
    | link | refused => exact .inl (.quiet .refl)
    | patch h => exact .inl (.quiet h.quiet)
  | fired hn h =>
    cases h with
    | retry => exact .inl (.fire hn (Context.fireBackoff_adds ..) rfl)
  | retried h =>
    cases h with
    | startBackoffTimer _ hla hqueued =>
      refine .inl (.start hla hqueued (.emit (.record [.allocated (s.ctx.nextSequence + 1)] ?_ rfl
        ?_ ?_) (by simp [ContextEvent.isRetry]) _ _) rfl rfl)
      · rfl
      · rfl
      · exact Nat.le_succ _
    | retryLocalActivity _ hla hqueued =>
      refine .inl (.retry hla hqueued (.emit (.record [] ?_ rfl ?_ ?_) (by simp) _ _) rfl)
      · exact (List.append_nil _).symm
      · rfl
      · exact Nat.le_refl _
    | left => exact .inl (.quiet .refl)
  | tied => exact .inl (.quiet .refl)

/-- A timer without a handle was started for a local activity. -/
def Context.Owned (c : Context P) : Prop :=
  ∀ t ms owner, .emitted (.startTimer t ms) owner ∈ c.trace →
    t ≤ c.nextSequence ∧ (c.timerHandles t = none → ∃ seq, owner = some seq)

theorem Context.Owned.records {c c' : Context P} (h : Owned c) (hrecords : Records fires c c') :
    Owned c' := by
  -- An update that starts no timer and adds no handle.
  have hkept {e : Option ContextEvent} (hadds : Adds e c c')
      (he : ∀ t ms owner, e ≠ some (.emitted (.startTimer t ms) owner))
      (hhandles : c'.timerHandles = c.timerHandles) : Owned c' := by
    intro t ms owner hx
    rcases hadds.mem hx rfl with hx | hx
    · obtain ⟨_, hwrote, -⟩ := hadds
      rw [hhandles]
      exact ⟨Nat.le_trans (h t ms owner hx).1 hwrote.sequence, (h t ms owner hx).2⟩
    · exact absurd hx (he t ms owner)
  cases hrecords with
  | quiet hquiet => exact hkept hquiet.1 (by simp) hquiet.2
  | @sleep f ms hadds hn hhandles =>
    intro t ms owner hx
    rw [hhandles, hn]
    rcases hadds.mem hx rfl with hx | hx
    · have hle := (h t ms owner hx).1
      rw [Function.update_of_ne (by omega)]
      exact ⟨Nat.le_succ_of_le hle, (h t ms owner hx).2⟩
    · cases hx
      rw [Function.update_self]
      exact ⟨Nat.le_refl _, fun hnone => by cases hnone⟩
  | schedule hadds hhandles => exact hkept hadds (by simp) hhandles
  | @start seq ms la hla hq hadds hn hhandles =>
    intro t ms owner hx
    rw [hhandles, hn]
    rcases hadds.mem hx rfl with hx | hx
    · exact ⟨Nat.le_succ_of_le (h t ms owner hx).1, (h t ms owner hx).2⟩
    · cases hx
      exact ⟨Nat.le_refl _, fun _ => ⟨seq, rfl⟩⟩
  | fire _ hadds hhandles => exact hkept hadds (by simp) hhandles
  | retry _ _ hadds hhandles => exact hkept hadds (by simp) hhandles

/-- The trace agrees with the commands: as long as the context is open its scheduler is
active, no task failure is recorded and nothing was discarded. -/
structure State.Booked (s : State P) : Prop where
  opened : s.ctx.isSealed = false → s.sched.active = true ∧ s.taskFailure = none
  commands : s.ctx.isSealed = false → s.ctx.history = emittedCommands s.ctx.trace
  owned : s.ctx.Owned

/-- An open context has an active scheduler. -/
theorem State.Move.opened (h : State.Move fires s s') (hopen : s'.ctx.isSealed = false)
    (hs : s.sched.active = true ∧ s.taskFailure = none) :
    s'.sched.active = true ∧ s'.taskFailure = none := by
  cases h with
  | change h =>
    refine ⟨h.keeps.active.trans hs.1, ?_⟩
    cases h with
    | act h => cases h <;> exact hs.2
    | _ => exact hs.2
  | answer h => cases h <;> exact hs
  | accept => exact hs
  | ended =>
    rw [State.contextShutdown_isSealed] at hopen
    cases hopen
  | own h =>
    cases h with
    | link h => exact ⟨h.frame.1.trans hs.1, hs.2⟩
    | patch | refused => exact hs
  | fired _ h =>
    cases h with
    | retry => exact ⟨(s.sched.enqueue_active _).trans hs.1, hs.2⟩
  | retried h =>
    cases h with
    | startBackoffTimer h | retryLocalActivity h | left h =>
      obtain ⟨n, rest, -, rfl⟩ := Scheduler.pop_eq_some h
      exact hs
  | tied h =>
    refine ⟨?_, hs.2⟩
    cases h with
    | pop h =>
      obtain ⟨n, rest, -, rfl⟩ := Scheduler.pop_eq_some h
      exact hs.1
    | addWaiter k frame hlive hcell =>
      rw [Scheduler.addWaiter_of_pending hcell]
      exact hs.1
    | teardown f => exact (s.sched.teardown_active f).trans hs.1
    | delivered u => exact (s.sched.enqueue_active _).trans hs.1
    | beginRun | endRun => exact hs.1

theorem State.Booked.move (h : s.Booked) (hmove : State.Move fires s s') : s'.Booked := by
  have hopened (hopen' : s'.ctx.isSealed = false) : s.ctx.isSealed = false := by
    refine Bool.eq_false_iff.mpr fun hsealed => ?_
    rw [hmove.progress.sealed hsealed] at hopen'
    cases hopen'
  refine ⟨fun hopen' => hmove.opened hopen' (h.opened (hopened hopen')), fun hopen' => ?_, ?_⟩
  · rcases hmove.records with hrecords | ⟨-, hwhy⟩
    · obtain ⟨es, hwrote⟩ := hrecords.wrote
      rw [hwrote.history, hwrote.trace, emittedCommands_append, h.commands (hopened hopen')]
    · obtain ⟨hactive, hfailure⟩ := h.opened (hopened hopen')
      simp [hactive, hfailure] at hwhy
  · rcases hmove.records with hrecords | ⟨hdiscard, -⟩
    · exact h.owned.records hrecords
    · rw [hdiscard]
      exact h.owned

theorem Reachable.booked (hc : Reachable P c) : c.store.Booked := by
  refine hc.move_induction ⟨fun _ => ⟨rfl, rfl⟩, fun _ => rfl, fun t ms owner h => ?_⟩
    fun _ _ hmove h => h.move hmove
  cases h

/-- **A retry timer fires in the job that names it** and in no other step. -/
theorem Moves.fired (h : Moves fires s s') {n : Nat} (hx : .backoffFired seq n ∈ s'.ctx.trace) :
    .backoffFired seq n ∈ s.ctx.trace ∨ fires n := by
  induction h with
  | refl => exact .inl hx
  | @tail m s' _ hmove ih =>
    have hkept {e : Option ContextEvent} (hadds : Context.Adds e m.ctx s'.ctx)
        (he : e = some (.backoffFired seq n) → fires n) :
        .backoffFired seq n ∈ s.ctx.trace ∨ fires n := by
      rcases hadds.mem hx rfl with hx | hx
      · exact ih hx
      · exact .inr (he hx)
    rcases hmove.records with hrecords | ⟨hdiscard, -⟩
    · cases hrecords with
      | quiet h => exact hkept h.1 (by simp)
      | sleep h | schedule h | start _ _ h | retry _ _ h => exact hkept h (by simp)
      | fire hn h =>
        refine hkept h fun heq => ?_
        cases heq
        exact hn
    · rw [hdiscard] at hx
      exact ih hx

/-! ### Accepted cancellations

A cancellation that is answered `Ok` leaves an activity that is settled, or that Core
still runs and whose handle remembers the request. No update gives such an activity
another timer or another attempt. -/

/-- The events that start a retry timer or schedule an attempt. -/
def LocalEvent.moves : LocalEvent → Bool
  | .scheduled _ | .timerStarted _ => true
  | _ => false

theorem LocalEvent.nothing_moves {log : List LocalEvent} (h : ∀ e ∈ log, e.moves = false) :
    attempts log = [] ∧ startedTimers log = [] := by
  constructor <;>
  · refine List.filterMap_eq_nil_iff.mpr fun e he => ?_
    have := h e he
    cases e <;> first | rfl | cases this

theorem ContextEvent.isRetry_of_moves {x : ContextEvent} {e : LocalEvent}
    (h : localEvent seq x = some e) (he : e.moves = true) : x.isRetry = true := by
  unfold localEvent at h
  split at h <;> first | rfl | cases h | (split at h <;> cases h; cases he)

namespace Context

/-- Local activity `seq` is settled, or its cancellation was requested. -/
structure Stopped (seq : Nat) (c : Context P) : Prop where
  known : seq ≤ c.nextSequence
  requested : ∀ la, c.localActivities seq = some la →
    ∃ handle, c.activityHandles seq = some handle ∧ handle.cancellationRequested = true

theorem Act.requested {c c' : Context P} (h : Act c c') {seq : Nat} {handle : ActivityHandle}
    (hle : seq ≤ c.nextSequence) (hh : c.activityHandles seq = some handle)
    (hreq : handle.cancellationRequested = true) :
    ∃ handle', c'.activityHandles seq = some handle' ∧ handle'.cancellationRequested = true := by
  cases h with
  | scheduleActivity | scheduleLocalActivity =>
    exact ⟨handle, (Function.update_of_ne (by omega) ..).trans hh, hreq⟩
  | @removeActivity n =>
    by_cases hn : seq = n
    · subst hn
      refine ⟨{ handle with terminal := true }, ?_, hreq⟩
      simp [Context.removeActivity, hh]
    · exact ⟨handle, (Function.update_of_ne hn ..).trans hh, hreq⟩
  | @requestCancel n =>
    by_cases hn : seq = n
    · subst hn
      exact ⟨_, Function.update_self .., rfl⟩
    · exact ⟨handle, (Function.update_of_ne hn ..).trans hh, hreq⟩
  | @cancelBackoff n handle' la =>
    by_cases hn : seq = n
    · subst hn
      refine ⟨{ handle' with cancellationRequested := true, terminal := true }, ?_, rfl⟩
      simp [Context.removeActivity, Context.markCancelled]
    · refine ⟨handle, ?_, hreq⟩
      simp [Context.removeActivity, Context.markCancelled, hn, hh]
  | leaveBackoff => exact ⟨handle, by simpa using hh, hreq⟩
  | _ => exact ⟨handle, hh, hreq⟩

namespace Stopped

variable {seq : Nat} {c c' : Context P}

theorem idle (h : Stopped seq c) (hl : c.LocalHandles) {la : LocalActivity}
    (hla : c.localActivities seq = some la) : la.backoff = .idle := by
  obtain ⟨handle, hh, hreq⟩ := h.requested la hla
  exact hl.idle seq handle la hh hreq hla

/-- The activity stays stopped, and gets no other retry timer. -/
theorem change (h : Stopped seq c) (hl : c.LocalHandles) (ht : c.Tabled) (hc : Change c c') :
    Stopped seq c' ∧ ∀ t attempt time, c'.timers t = some (.backoff seq attempt time) →
      c.timers t = some (.backoff seq attempt time) := by
  have hsame {c'' : Context P} (hla : c''.localActivities = c.localActivities)
      (hh : c''.activityHandles = c.activityHandles) (hn : c''.nextSequence = c.nextSequence)
      (htimers : c''.timers = c.timers) : Stopped seq c'' ∧
        ∀ t attempt time, c''.timers t = some (.backoff seq attempt time) →
          c.timers t = some (.backoff seq attempt time) :=
    ⟨⟨hn ▸ h.known, hla ▸ hh ▸ h.requested⟩, fun _ _ _ h => htimers ▸ h⟩
  -- The entry of an activity changes that was there before.
  have hset {c'' : Context P} {n : Nat} {la la' : LocalActivity}
      (hla : c.localActivities n = some la)
      (hla' : c''.localActivities = Function.update c.localActivities n (some la'))
      (hh : c''.activityHandles = c.activityHandles) (hn : c.nextSequence ≤ c''.nextSequence) :
      Stopped seq c'' := by
    refine ⟨Nat.le_trans h.known hn, fun la₁ hla₁ => ?_⟩
    rw [hh]
    by_cases hns : seq = n
    · subst hns
      exact h.requested la hla
    · rw [hla', Function.update_of_ne hns] at hla₁
      exact h.requested la₁ hla₁
  cases hc with
  | act hact =>
    obtain ⟨hla, htimers, hn⟩ := hact.localActivities ht
    refine ⟨⟨Nat.le_trans h.known hn, fun la hla' => ?_⟩, fun t => htimers t seq⟩
    rcases hla seq la hla' with hla | hlt
    · obtain ⟨handle, hh, hreq⟩ := h.requested la hla
      exact hact.requested h.known hh hreq
    · exact absurd h.known (Nat.not_le_of_lt hlt)
  | patch hpatch =>
    obtain ⟨patches, markers, rfl, -⟩ := hpatch.frame
    exact hsame rfl rfl rfl rfl
  | retry hretry =>
    cases hretry with
    | acceptBackoff hla => exact ⟨hset hla rfl rfl (Nat.le_refl _), fun _ _ _ => id⟩
    | startBackoffTimer attempt ms time hla hqueued =>
      refine ⟨hset hla rfl rfl (Nat.le_succ _), fun t attempt' time' htimer => ?_⟩
      have htimer : Function.update c.timers (c.nextSequence + 1) _ t =
        some (.backoff seq attempt' time') := htimer
      rw [Function.update_apply] at htimer
      split at htimer
      · cases htimer
        rw [h.idle hl hla] at hqueued
        cases hqueued
      · exact htimer
    | @fireBackoff n target u attempt time la htimer hla hu =>
      refine ⟨hset hla rfl rfl (Nat.le_refl _), fun t attempt' time' htimer' => ?_⟩
      have htimer' : Function.update c.timers n none t = some (.backoff seq attempt' time') :=
        htimer'
      by_cases htn : t = n
      · subst htn
        simp at htimer'
      · rwa [Function.update_of_ne htn] at htimer'
    | retryLocalActivity _ _ hla => exact ⟨hset hla rfl rfl (Nat.le_refl _), fun _ _ _ => id⟩
  | clearTables =>
    refine ⟨⟨h.known, fun la hla => ?_⟩, fun t attempt time htimer => ?_⟩
    · cases hla
    · cases htimer
  | _ => exact hsame rfl rfl rfl rfl

theorem records {fires : Nat → Prop} (h : Stopped seq c) (hl : c.LocalHandles)
    (hrecords : Records fires c c') :
    attempts (localLog seq c'.trace) = attempts (localLog seq c.trace) ∧
      startedTimers (localLog seq c'.trace) = startedTimers (localLog seq c.trace) := by
  have hstill {e : Option ContextEvent} (hadds : Adds e c c')
      (he : ∀ x y, e = some x → localEvent seq x = some y → y.moves = false) :
      attempts (localLog seq c'.trace) = attempts (localLog seq c.trace) ∧
        startedTimers (localLog seq c'.trace) = startedTimers (localLog seq c.trace) := by
    obtain ⟨es, hwrote, honly⟩ := hadds
    have hnone : ∀ y ∈ localLog seq es, y.moves = false := by
      intro y hy
      obtain ⟨x, hx, hxy⟩ := List.mem_filterMap.mp hy
      refine Bool.eq_false_iff.mpr fun hmoves => ?_
      have hretry := ContextEvent.isRetry_of_moves hxy hmoves
      rw [he x y (honly x hx hretry) hxy] at hmoves
      cases hmoves
    obtain ⟨hattempts, hstarted⟩ := LocalEvent.nothing_moves hnone
    rw [hwrote.trace, localLog_append, attempts_append, startedTimers_append, hattempts, hstarted,
      List.append_nil, List.append_nil]
    exact ⟨rfl, rfl⟩
  have hknown := h.known
  cases hrecords with
  | quiet hquiet => exact hstill hquiet.1 (by simp)
  | sleep hadds =>
    refine hstill hadds fun x y hx hy => ?_
    cases hx
    cases hy
  | schedule hadds =>
    refine hstill hadds fun x y hx hy => ?_
    cases hx
    simp only [localEvent] at hy
    rw [if_neg (by omega)] at hy
    cases hy
  | @start n ms la hla hq hadds =>
    refine hstill hadds fun x y hx hy => ?_
    cases hx
    simp only [localEvent] at hy
    split at hy
    · next hn =>
      rw [h.idle hl (hn ▸ hla)] at hq
      cases hq
    · cases hy
  | fire _ hadds =>
    refine hstill hadds fun x y hx hy => ?_
    cases hx
    simp only [localEvent] at hy
    split at hy <;> cases hy
    rfl
  | @retry n attempt time la hla hq hadds =>
    refine hstill hadds fun x y hx hy => ?_
    cases hx
    simp only [localEvent] at hy
    split at hy
    · next hn =>
      rw [h.idle hl (hn ▸ hla)] at hq
      cases hq
    · cases hy

end Stopped

/-- Between `c` and `c'` local activity `seq` was neither scheduled nor given a timer. -/
structure Rests (seq : Nat) (c c' : Context P) : Prop where
  attempts : attempts (localLog seq c'.trace) = attempts (localLog seq c.trace)
  startedTimers : startedTimers (localLog seq c'.trace) = startedTimers (localLog seq c.trace)
  timers : ∀ t attempt time, c'.timers t = some (.backoff seq attempt time) →
    c.timers t = some (.backoff seq attempt time)

end Context

open Context (Stopped Rests)

/-- **A stopped activity stays stopped**: one update of the execution. -/
theorem Context.Stopped.move (h : Stopped seq s.ctx) (hs : Localized s)
    (hmove : State.Move fires s s') : Stopped seq s'.ctx ∧ Rests seq s.ctx s'.ctx := by
  have hctx : (s'.ctx.Tabled ∧ s'.ctx.LocalHandles) ∧ Stopped seq s'.ctx ∧
      ∀ t attempt time, s'.ctx.timers t = some (.backoff seq attempt time) →
        s.ctx.timers t = some (.backoff seq attempt time) := by
    refine invariant_of_changes
      (I := fun c : Context P => (c.Tabled ∧ c.LocalHandles) ∧ Stopped seq c ∧
        ∀ t attempt time, c.timers t = some (.backoff seq attempt time) →
          s.ctx.timers t = some (.backoff seq attempt time))
      (fun c c' hc hI => ?_) hmove.progress.ctx ⟨⟨hs.tabled, hs.handles⟩, h, fun _ _ _ => id⟩
    obtain ⟨⟨ht, hl⟩, hstopped, htimers⟩ := hI
    obtain ⟨hstopped', htimers'⟩ := hstopped.change hl ht hc
    exact ⟨⟨ht.change hc, hl.change ht hc⟩, hstopped',
      fun t attempt time htimer => htimers t attempt time (htimers' t attempt time htimer)⟩
  refine ⟨hctx.2.1, ?_⟩
  rcases hmove.records with hrecords | ⟨hdiscard, -⟩
  · obtain ⟨hattempts, hstarted⟩ := h.records hs.handles hrecords
    exact ⟨hattempts, hstarted, hctx.2.2⟩
  · rw [hdiscard]
    exact ⟨rfl, rfl, fun _ _ _ => id⟩

theorem Context.Stopped.moves (h : Stopped seq s.ctx) (hs : Localized s)
    (hmoves : Moves fires s s') :
    Rests seq s.ctx s'.ctx := by
  suffices Localized s' ∧ Stopped seq s'.ctx ∧ Rests seq s.ctx s'.ctx from this.2.2
  induction hmoves with
  | refl => exact ⟨hs, h, rfl, rfl, fun _ _ _ => id⟩
  | tail _ hmove ih =>
    obtain ⟨hlocal, hstopped, hrests⟩ := ih
    obtain ⟨hstopped', hrests'⟩ := hstopped.move hlocal hmove
    exact ⟨hlocal.move hmove, hstopped', hrests'.attempts.trans hrests.attempts,
      hrests'.startedTimers.trans hrests.startedTimers,
      fun t attempt time htimer => hrests.timers t attempt time
      (hrests'.timers t attempt time htimer)⟩

/-- What an accepted cancellation does to the context. Nothing, if the activity is
settled or the cancellation was requested before; otherwise Core is asked to cancel, or,
between two attempts, the backoff is left. -/
theorem State.cancelActivity_ok (h : s.cancelActivity seq = (s', .ok .unit)) :
    ∃ handle, s.ctx.activityHandles seq = some handle ∧
      (s'.ctx = s.ctx ∧ (s.ctx.activities seq = none ∨ handle.cancellationRequested = true) ∨
      handle.cancellationRequested = false ∧ ((s.ctx.activities seq).isSome = true ∧
        (∀ la, s.ctx.localActivities seq = some la → la.backoff = .idle) ∧
        s'.ctx = (s.ctx.markCancelled seq handle).emit
          (if handle.isLocal then .requestCancelLocalActivity seq else .requestCancelActivity seq) ∨
      ∃ la, s.ctx.localActivities seq = some la ∧ la.backoff ≠ .idle ∧
        s'.ctx = ((s.ctx.markCancelled seq handle).leaveBackoff seq la).removeActivity seq)) := by
  unfold cancelActivity at h
  split at h
  · next handle _ hh =>
    refine ⟨handle, hh, ?_⟩
    split at h
    · next hnone =>
      split at h
      · cases h
      · cases h
        exact .inl ⟨rfl, .inl hnone⟩
    · next a ha =>
      split at h
      · next hreq =>
        cases h
        exact .inl ⟨rfl, .inr hreq⟩
      · next hreq =>
        refine .inr ⟨Bool.eq_false_iff.mpr hreq, ?_⟩
        dsimp only at h
        split at h
        · next la hla =>
          split at h
          · next hidle =>
            cases h
            refine .inl ⟨by simp [ha], fun la' hla' => ?_, rfl⟩
            obtain rfl := Option.some.inj (hla.symm.trans hla')
            exact hidle
          · next hidle =>
            refine .inr ⟨la, hla, hidle, ?_⟩
            unfold cancelLocalActivityBackoff failActivity at h
            split at h
            · cases h
            · have hfst := congrArg Prod.fst h
              rw [settle_fst] at hfst
              rw [← show _ = s' from hfst]
        · next hla =>
          cases h
          refine .inl ⟨by simp [ha], fun la hla' => ?_, rfl⟩
          rw [show s.ctx.localActivities seq = none from hla] at hla'
          cases hla'
  · cases h

/-- The top task runs code that performs `op`, and the code is answered `Ok ()`. -/
def Task.Accepted (s : State P) (t : Task P) (op : Op P.Val P.Code) : Prop :=
  ∃ code frame memory k s', t = .run code frame ∧
    P.view code s.memory = (memory, .perform op k) ∧
    ({ s with memory } : State P).perform op = .reply s' (.ok .unit)

theorem Task.Accepted.step {t : Task P} (h : t.Accepted s (.cancelActivity seq)) :
    ∃ memory s', State.cancelActivity { s with memory } seq = (s', .ok .unit) ∧
      (s.step t).2 = s' := by
  obtain ⟨code, frame, memory, k, s', rfl, hview, hperform⟩ := h
  refine ⟨memory, s', ?_, ?_⟩
  · simp only [State.perform, Performed.ofReply, Performed.reply.injEq] at hperform
    exact Prod.ext hperform.1 hperform.2
  · simp only [State.step, State.runCode, hview, State.interact, hperform]

/-- The command with which an accepted cancellation reaches Core: Core cancels the attempt
it runs, or the timer between two attempts; queued work is cancelled by the workflow. -/
def LocalActivity.cancelCommands (la : LocalActivity) (seq : Nat) : List Command :=
  match la.backoff with
  | .idle => [.requestCancelLocalActivity seq]
  | .timer t => [.cancelTimer t]
  | .timerQueued | .retryQueued => []

theorem Context.leaveBackoff_history {c : Context P} (hopen : c.isSealed = false) (seq : Nat)
    {la : LocalActivity} (hla : la.backoff ≠ .idle) :
    (c.leaveBackoff seq la).history = c.history ++ la.cancelCommands seq := by
  unfold leaveBackoff LocalActivity.cancelCommands
  cases hb : la.backoff with
  | idle => exact absurd hb hla
  | timer t => simp [history, Context.emit, takes, hopen]
  | timerQueued | retryQueued => simp [history]

/-- What follows when a cancellation of local activity `seq` is accepted in `s`; the next
configuration is `d`. The first accepted cancellation buffers its command and leaves the
backoff, and at no later point of the run is there another attempt or another retry
timer. -/
structure CancelAccepted (seq : Nat) (s : State P) (d : Config P) : Prop where
  commands : ∀ la handle, s.ctx.localActivities seq = some la →
    s.ctx.activityHandles seq = some handle → d.store.ctx.history = s.ctx.history ++
      if handle.cancellationRequested then [] else la.cancelCommands seq
  left : ∀ la, s.ctx.localActivities seq = some la → la.backoff ≠ .idle →
    d.store.ctx.localActivities seq = none
  later : ∀ e, Runs d e → Rests seq d.store.ctx e.store.ctx

theorem State.cancelActivity_stopped (hs : Localized s)
    (h : s.cancelActivity seq = (s', .ok .unit)) :
    Stopped seq s'.ctx := by
  obtain ⟨handle, hh, hcases⟩ := State.cancelActivity_ok h
  have hknown := hs.handles.known seq handle hh
  rcases hcases with ⟨hctx, hnone | hreq⟩ | ⟨-, ⟨-, -, hctx⟩ | ⟨left, -, -, hctx⟩⟩ <;> rw [hctx]
  · refine ⟨hknown, fun la hla => ?_⟩
    have := hs.tabled.phases.activity seq la hla
    rw [hnone] at this
    cases this
  · exact ⟨hknown, fun _ _ => ⟨handle, hh, hreq⟩⟩
  · exact ⟨hknown, fun _ _ => ⟨_, Function.update_self .., rfl⟩⟩
  · refine ⟨?_, fun la hla => ?_⟩
    · exact hknown.trans (Nat.le_of_eq
        (Context.leaveBackoff_nextSequence (s.ctx.markCancelled seq handle) seq left).symm)
    · have hla : Function.update
        ((s.ctx.markCancelled seq handle).leaveBackoff seq left).localActivities seq none seq =
        some la := hla
      rw [Function.update_self] at hla
      cases hla

theorem State.cancelActivity_commands {la : LocalActivity} {handle : ActivityHandle}
    (hs : Localized s) (hopen : s.ctx.isSealed = false) (h : s.cancelActivity seq = (s', .ok .unit))
    (hla : s.ctx.localActivities seq = some la) (hh : s.ctx.activityHandles seq = some handle) :
    s'.ctx.history = s.ctx.history ++
      if handle.cancellationRequested then [] else la.cancelCommands seq := by
  obtain ⟨handle', hh', hcases⟩ := State.cancelActivity_ok h
  obtain rfl := Option.some.inj (hh.symm.trans hh')
  have hactivity := hs.tabled.phases.activity seq la hla
  rcases hcases with ⟨hctx, hnone | hreq⟩ | ⟨hreq,
    ⟨hsome, hidle, hctx⟩ | ⟨la', hla', hne, hctx⟩⟩ <;>
    rw [hctx]
  · rw [hnone] at hactivity
    cases hactivity
  · rw [if_pos hreq, List.append_nil]
  · have hlocal : handle.isLocal = true := by rw [hs.handles.isLocal seq handle hsome hh, hla]; rfl
    have htakes :
      (s.ctx.markCancelled seq handle).takes (.requestCancelLocalActivity seq) = true := by
      simp [Context.takes, Context.markCancelled, hopen]
    rw [if_pos hlocal, Context.history_emit, if_pos htakes, hreq, LocalActivity.cancelCommands,
      hidle la hla]
    rfl
  · obtain rfl := Option.some.inj (hla.symm.trans hla')
    have hmarked : (s.ctx.markCancelled seq handle).isSealed = false := hopen
    have hhistory := Context.leaveBackoff_history hmarked seq hne
    rw [hreq]
    exact hhistory

theorem Reachable.cancelAccepted {t : Task P} {ts : List (Task P)} (hc : Reachable P ⟨t :: ts, s⟩)
    (hopen : s.ctx.isSealed = false) (h : t.Accepted s (.cancelActivity seq)) :
    CancelAccepted seq s ((machine P).next ⟨t :: ts, s⟩) := by
  obtain ⟨memory, s', hcancel, hstep⟩ := h.step
  have hs : Localized s := hc.localized
  have hs' : Localized { s with memory } := ⟨hs.tabled, hs.handles,
    ⟨hs.retries.nodup, hs.retries.known, hs.retries.fits, hs.retries.timers⟩, hs.followed⟩
  have hnext : ((machine P).next ⟨t :: ts, s⟩).store = s' := hstep
  refine ⟨fun la handle hla hh => ?_, fun la hla hne => ?_, fun e hrun => ?_⟩
  · rw [hnext]
    exact State.cancelActivity_commands (s := { s with memory }) hs' hopen hcancel hla hh
  · rw [hnext]
    obtain ⟨handle, hh, hcases⟩ := State.cancelActivity_ok hcancel
    rcases hcases with ⟨hctx, hnone | hreq⟩ | ⟨-, ⟨-, hidle, -⟩ | ⟨la', -, -, hctx⟩⟩
    · have := hs.tabled.phases.activity seq la hla
      rw [show s.ctx.activities seq = none from hnone] at this
      cases this
    · exact absurd (hs.handles.idle seq handle la hh hreq hla) hne
    · exact absurd (hidle la hla) hne
    · rw [hctx]
      exact Function.update_self ..
  · have hstopped := State.cancelActivity_stopped hs' hcancel
    rw [← hnext] at hstopped
    exact hstopped.moves hc.step.localized (hrun.moves hc.step)

/-- How the log of local activity `seq` is tied to what can be seen of the execution. The
commands it was read off are those returned and buffered; a start-timer command that is
not that of a sleep is in the log of some activity; while the table says that the activity
is in its backoff, the log does; and a retry timer fires in the job that names it. -/
structure LocalTies (seq : Nat) (c : Config P) : Prop where
  commands : c.store.ctx.history = emittedCommands c.store.ctx.trace
  timers : ∀ t ms, .startTimer t ms ∈ c.store.ctx.history → c.store.ctx.timerHandles t = none →
    ∃ n, .timerStarted t ∈ localLog n c.store.ctx.trace
  backoff : ∀ la, c.store.ctx.localActivities seq = some la → la.backoff ≠ .idle →
    InBackoff (localLog seq c.store.ctx.trace)
  fired : ∀ t ts n, c.stack = t :: ts →
    .timerFired n ∈ localLog seq ((machine P).next c).store.ctx.trace →
    .timerFired n ∈ localLog seq c.store.ctx.trace ∨ t.Fires n

theorem timerFired_mem_localLog {n : Nat} {log : List ContextEvent} :
    .timerFired n ∈ localLog seq log ↔ .backoffFired seq n ∈ log := by
  constructor
  · intro h
    obtain ⟨x, hx, hxn⟩ := List.mem_filterMap.mp h
    unfold localEvent at hxn
    split at hxn <;> (try split at hxn) <;> simp_all
  · intro h
    exact List.mem_filterMap.mpr ⟨_, h, by simp [localEvent]⟩

theorem Reachable.localTies (hc : Reachable P c) (hopen : c.store.ctx.isSealed = false)
    (seq : Nat) :
    LocalTies seq c := by
  have hcommands := hc.booked.commands hopen
  refine ⟨hcommands, fun t ms hmem hnone => ?_, fun la hla hne => ?_, fun t ts n hstack hn => ?_⟩
  · rw [hcommands] at hmem
    obtain ⟨x, hx, hcommand⟩ := List.mem_filterMap.mp hmem
    cases x with
    | emitted command owner =>
      cases hcommand
      obtain ⟨n, rfl⟩ := (hc.booked.owned t ms owner hx).2 hnone
      exact ⟨n, List.mem_filterMap.mpr ⟨_, hx, by simp [localEvent]⟩⟩
    | _ => cases hcommand
  · obtain ⟨st, hfollows, hst⟩ := (hc.localized.followed hopen).follows seq
    obtain ⟨n, rfl, -⟩ := hst.of_some hla
    exact inBackoff_of_live hfollows hne
  · obtain ⟨stack, s⟩ := c
    cases hstack
    rw [timerFired_mem_localLog] at hn ⊢
    exact hc.wellFormed.turn.moves.fired hn

/-- **The retries of a local activity** in an execution whose context is not
sealed. The attempts it schedules grow; between two of them exactly one timer was
started, and it fired and was not cancelled. After a cancellation in a backoff no
timer is started and nothing is scheduled. A retry timer is cancelled exactly if a
cancellation found it started and not fired, and no cancellation is requested from
Core while the activity is in its backoff. Its resolver runs at most once. All this is
about the log of the activity, which `LocalTies` ties to the commands of the context, to
its tables and to the jobs. A cancellation that the code is told was accepted buffers the
command of its phase, and afterwards nothing is scheduled or started for the activity
(`CancelAccepted`). A future that is settled stays as it is. -/
theorem local_activity_retries (hc : Reachable P c) (hopen : c.store.ctx.isSealed = false)
    (seq : Nat) :
    (attempts (localLog seq c.store.ctx.trace)).Pairwise (· < ·) ∧
    (∀ before a between a' after, localLog seq c.store.ctx.trace =
        before ++ .scheduled a :: (between ++ .scheduled a' :: after) → attempts between = [] →
      ∃ t, startedTimers between = [t] ∧ firedTimers between = [t] ∧
        cancelledTimers between = []) ∧
    (∀ before p after, localLog seq c.store.ctx.trace = before ++ .cancelled p :: after →
      attempts after = [] ∧ startedTimers after = []) ∧
    (∀ t, .timerCancelled t ∈ localLog seq c.store.ctx.trace ↔
      StoppedTimer (localLog seq c.store.ctx.trace) t) ∧
    (∀ before after, localLog seq c.store.ctx.trace = before ++ .cancelRequested :: after →
      ¬InBackoff before) ∧
    (localLog seq c.store.ctx.trace).count .resolved ≤ 1 ∧
    LocalTies seq c ∧
    (∀ t ts, c.stack = t :: ts → t.Accepted c.store (.cancelActivity seq) →
      CancelAccepted seq c.store ((machine P).next c)) ∧
    ∀ d f result, Runs c d → c.store.sched.cellState f = some (.ready result) →
      d.store.sched.cellState f = some (.ready result) := by
  have h := hc.localized
  obtain ⟨st, hfollows, hst⟩ := (h.followed hopen).follows seq
  refine ⟨(attempts_follows hfollows).1, fun before a between a' after heq hnone =>
    one_timer_between hfollows heq hnone, fun before p after heq => ?_,
    hst.timerCancelled_iff hfollows, fun before after heq => ?_, h.tabled.resolved_le seq,
    hc.localTies hopen seq, fun t ts hstack haccepted => ?_, fun d f result hrun hready => ?_⟩
  · have hall := follows_cancelled hfollows heq
    constructor <;>
      exact List.filterMap_eq_nil_iff.mpr fun e he => by rw [hall e he]
  · -- The command is emitted in phase `idle`.
    obtain ⟨m, m', hbefore, hstep, -⟩ := hfollows.split heq
    cases hstep with
    | request => exact not_inBackoff_of_idle hbefore
  · obtain ⟨stack, s⟩ := c
    cases hstack
    exact hc.cancelAccepted hopen haccepted
  · obtain ⟨state, hstate, hlater⟩ := (hc.fairRun hrun).cells f _ hready
    cases hlater
    exact hstate

/-- A workflow that cancels its local activity when the signal `stop` arrives. -/
def cancellable : Program :=
  Script.program (.withFuture (.scheduleLocalActivity { name := "charge", input := [] }
      fun _ => .done) fun f => .then_ (.await f) (.withFuture (.startTimer 5) fun g =>
        .then_ (.await g) .done))
    (fun name => if name = "stop" then some (.then_ (.cancelActivity 1) .done) else none)
    Script.unregistered Script.unregistered

/-- The second attempt failed too and its retry timer runs. -/
def secondBackoff : State cancellable :=
  replayed cancellable 40 [.activate [.startWorkflow],
    .activate [.resolveLocalActivityBackoff 1 2 10 none],
    .activate [.fireTimer 2],
    .activate [.resolveLocalActivityBackoff 1 3 20 none]] (by decide +kernel)

/-- The signal handler is about to cancel the activity. -/
def cancelling : Config cancellable :=
  let r := (Input.activate [.signalWorkflow "stop" [] "" []]).apply secondBackoff
  (machine cancellable).run 3 ⟨r.1, r.2⟩

/-- The cancellation is accepted and stops the timer of the third attempt. -/
theorem local_activity_retries_cancelling :
    localLog 1 cancelling.store.ctx.trace = [.scheduled 1, .accepted, .timerStarted 2,
      .timerFired 2, .scheduled 2, .accepted, .timerStarted 3] ∧
    CancelAccepted 1 cancelling.store ((machine cancellable).next cancelling) ∧
    ((machine cancellable).next cancelling).store.ctx.history =
      cancelling.store.ctx.history ++ [.cancelTimer 3] := by
  have hc : Reachable cancellable cancelling :=
    Reachable.run (.input _ (reachable_replayed _)) 3
  have hcancel : CancelAccepted 1 cancelling.store ((machine cancellable).next cancelling) :=
    (local_activity_retries hc (by decide +kernel) 1).2.2.2.2.2.2.2.1
      (.run (.then_ (.cancelActivity 1) .done) .signal) cancelling.stack.tail rfl
      ⟨_, _, (), _, _, rfl, rfl, rfl⟩
  exact ⟨by decide +kernel, hcancel, by decide +kernel⟩

end OcamlTemporal
