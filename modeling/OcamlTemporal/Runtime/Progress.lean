import OcamlTemporal.Runtime.Continuations

/-!
# OcamlTemporal.Runtime.Progress

**`State.step_turn`** says what one step of an execution can do (`State.Turn`):
make calls that leave the front of the run queue alone (`Steps`), take and run one
entry of it, suspend a fiber, or enter and leave the scheduler loop. Every invariant
of a run is derived from it: those of one record update by update
(`Reachable.sched_induction`, `Reachable.ctx_induction`), those of the stack turn by
turn (`Reachable.induction`). What is kept between any two points of a run is a
matter of the updates between them (`Runs.moves`).
-/

namespace OcamlTemporal

open Relation (ReflTransGen)

variable {P : Program}

/-! ### Sequences of updates

The primitive updates of `Runtime.Changes` are composed here. `Changes` leave the scheduler active
and the front of its queue alone; `Moves` are all updates of a run, and name the retry timers that
fire among them. -/

/-- A sequence of updates that leave the scheduler active. -/
def Changes (s s' : State P) : Prop := ReflTransGen State.Change s s'

namespace Changes

theorem refl (s : State P) : Changes s s := ReflTransGen.refl

theorem trans {a b c : State P} (h : Changes a b) (h' : Changes b c) : Changes a c :=
  ReflTransGen.trans h h'

variable {s : State P}

theorem single {s' : State P} (h : State.Change s s') : Changes s s' := ReflTransGen.single h

theorem of_acts {s' : State P} (h : Acts s s') : Changes s s' := by
  induction h with
  | refl => exact .refl s
  | tail _ hbc ih => exact ih.trans (.single (.act hbc))

theorem of_sched {sched : Scheduler P} (h : Scheduler.Act s.sched sched) :
    Changes s { s with sched } :=
  .of_acts (.of_sched h)

theorem of_ctx {ctx : Context P} (h : Context.Act s.ctx ctx) : Changes s { s with ctx } :=
  .of_acts (.of_ctx h)

/-- Fields of the execution that neither the scheduler nor the context sees. -/
theorem of_other (memory : P.Mem) (started : Bool) (escaped : Option Exn) :
    Changes s { s with memory, started, escaped } :=
  .single (.act (.other memory started escaped))

end Changes

/-- A sequence of primitive updates in which of the retry timers only those of `fires`
fire. -/
def Moves (fires : Nat → Prop) (s s' : State P) : Prop := ReflTransGen (State.Move fires) s s'

namespace Moves

variable {fires : Nat → Prop}

theorem trans {a b c : State P} (h : Moves fires a b) (h' : Moves fires b c) : Moves fires a c :=
  ReflTransGen.trans h h'

variable {s s' : State P}

theorem single (h : State.Move fires s s') : Moves fires s s' :=
  ReflTransGen.single h

theorem any (h : Moves fires s s') : Moves (fun _ => True) s s' := by
  induction h with
  | refl => exact .refl
  | tail _ hmove ih =>
    refine ih.trans (.single ?_)
    cases hmove with
    | change h => exact .change h
    | answer h => exact .answer h
    | accept u h => exact .accept u h
    | ended h => exact .ended h
    | own h => exact .own h
    | fired _ h => exact .fired trivial h
    | retried h => exact .retried h
    | tied h => exact .tied h

theorem progress (h : Moves fires s s') : Progress s s' := by
  induction h with
  | refl => exact .refl s
  | tail _ hbc ih => exact ih.trans hbc.progress

end Moves

variable {s s' : State P} {frame : Frame P} {t : Task P} {r : Outcome P} {ts : List (Task P)}

theorem Changes.moves {fires : Nat → Prop} (h : Changes s s') : Moves fires s s' := by
  induction h with
  | refl => exact .refl
  | tail _ hbc ih => exact ih.tail (.change hbc)

theorem Changes.progress (h : Changes s s') : Progress s s' :=
  have hmoves : Moves (fun _ => False) s s' := h.moves
  hmoves.progress

/-! ### Calls

A step of the source is a few nested OCaml calls. Each gets a lemma that ends in `Steps`, so that a
caller is described by what its callees do and never unfolds them. -/

/-- What a piece of code is for. It decides what may follow when the code ends: a fiber can end the
run, a phase of an update can answer that update, and nothing else can do either. -/
inductive Role
  -- the workflow itself or a signal handler
  | fiber
  -- a phase of an update handler, before or after its acceptance
  | update (u : Update) (accepted : Bool)
  | callback
  -- code attached to the job pass or the idle check
  | attached

def Frame.role : Frame P → Role
  | .root | .rootEncode | .signal => .fiber
  | .updateDecode u _ | .updateValidate u _ _ _ => .update u false
  | .updateRun u _ | .updateEncode u => .update u true
  | .callback => .callback
  | .predicate _ | .query _ _ | .decodeActivity _ | .decodeChild _ => .attached

theorem Frame.role_eq_attached : frame.role = .attached ↔ frame.isAttached = true := by
  cases frame <;> simp [Frame.role, Frame.isAttached]

theorem Frame.isAttached_of_handled (h : frame.handled = true) : frame.isAttached = false := by
  cases frame <;> first | rfl | cases h

/-- The role in which queued work runs. -/
def Thunk.role : Thunk P → Role
  | .root | .signal _ | .backoffTimer _ _ _ _ | .backoffRetry _ _ _ => .fiber
  | .update u => .update u false
  | .resume k _ => k.frame.role
  | .deliver _ _ | .callback _ => .callback

/-- What a call from `s` on behalf of code of the given role does: it only changes
the state, starts code of the same role, answers or accepts its update, or shuts the
context down. -/
inductive Steps (role : Role) (s : State P) : Outcome P → Prop
  | calm {s' : State P} (h : Changes s s') : Steps role s ([], s')
  | call {s' : State P} (h : Changes s s') (code : P.Code) {frame : Frame P}
      (hframe : frame.role = role) : Steps role s ([.run code frame], s')
  | answer {m s' : State P} {u : Update} {accepted : Bool} (h : Changes s m)
      (hrole : role = .update u accepted) (hanswer : State.Answer u accepted m s') :
      Steps role s ([], s')
  | accept {m : State P} {u : Update} (h : Changes s m) (hrole : role = .update u false)
      (hfresh : u.protocolInstanceId ∉ m.pendingUpdates) (code : P.Code)
      (handler : UpdateHandler P.Val P.Code) :
      Steps role s ([.run code (.updateRun u handler)], m.acknowledged u)
  | ended {m e s' : State P} {rest : List (Task P)} (h : Changes s m) (hend : State.Ending m e)
      (hafter : Changes e.contextShutdown.2 s') (hsched : s'.sched = e.contextShutdown.2.sched)
      (hrest : rest = [] ∨ rest = [.discardCommands]) :
      Steps role s (e.contextShutdown.1 ++ rest, s')

namespace Steps

variable {role : Role}

variable {s : State P}

theorem after {m : State P} {r : Outcome P} (h : Changes s m) (hr : Steps role m r) :
    Steps role s r := by
  cases hr with
  | calm h' => exact .calm (h.trans h')
  | call h' code hframe => exact .call (h.trans h') code hframe
  | answer h' hrole hanswer => exact .answer (h.trans h') hrole hanswer
  | accept h' hrole hfresh code handler => exact .accept (h.trans h') hrole hfresh code handler
  | ended h' hend hafter hsched hrest => exact .ended (h.trans h') hend hafter hsched hrest

theorem shut {e : State P} (hend : State.Ending s e) : Steps role s e.contextShutdown := by
  have h : Steps role s (e.contextShutdown.1 ++ [], e.contextShutdown.2) :=
    .ended (.refl s) hend (.refl _) rfl (.inl rfl)
  rwa [List.append_nil] at h

theorem moves {fires : Nat → Prop} {r : Outcome P} (h : Steps role s r) : Moves fires s r.2 := by
  cases h with
  | calm h => exact h.moves
  | call h => exact h.moves
  | answer h _ hanswer => exact h.moves.trans (.single (.answer hanswer))
  | accept h _ hfresh => exact h.moves.trans (.single (.accept _ hfresh))
  | ended h hend hafter => exact (h.moves.trans (.single (.ended hend))).trans hafter.moves

end Steps

namespace State

section Calls

variable {role : Role}

theorem emitTerminal_steps (s : State P) {command : Command} (h : command.isTerminal = true) :
    Steps role s (s.emitTerminal command) := by
  unfold emitTerminal
  split
  · exact .calm (.refl s)
  · split
    · exact .calm (.refl s)
    · next hbuffered =>
      exact .shut (.emitTerminal command h (Bool.eq_false_iff.mpr hbuffered))

theorem poisonTask_steps (s : State P) (e : Error)
    (hrunning : s.taskFailure = none → s.sched.running = true →
      s.ctx.hasBufferedTerminal = false) : Steps role s (s.poisonTask e) := by
  unfold poisonTask
  split
  · exact .calm (.refl s)
  · next hnone =>
    exact .ended (.refl s)
      (.shutdown true s.evicted (some e) (fun _ => rfl) id (fun _ => rfl) (hrunning hnone))
      (.refl _) rfl (.inr rfl)

theorem failTask_steps (s : State P) (e : Error) : Steps role s (s.failTask e) := by
  unfold failTask
  split
  · exact .calm (.refl s)
  · next hopen =>
    refine s.poisonTask_steps e fun hnone _ => ?_
    rw [hnone] at hopen
    cases hb : s.ctx.hasBufferedTerminal
    · rfl
    · simp [hb] at hopen

theorem fail_steps (s : State P) (e : Error) : Steps role s (s.fail e) := by
  unfold fail
  split
  · exact s.failTask_steps e
  · split
    · exact .calm (.refl s)
    · exact s.emitTerminal_steps rfl

theorem raiseFiber_steps (s : State P) (x : Exn) : Steps role s (s.raiseFiber x) := by
  unfold raiseFiber
  split
  · exact .calm (.refl s)
  · exact .calm (.of_sched (.recordFailure x))

end Calls

theorem updateError_steps (s : State P) (u : Update) (accepted : Bool) (e : Error) :
    Steps (.update u accepted) s (s.updateError u accepted e) := by
  cases accepted with
  | true =>
    simp only [updateError, if_pos]
    split
    · exact s.failTask_steps e
    · exact .answer (.refl s) rfl (.finish _ nofun)
  | false =>
    simp only [updateError, Bool.false_eq_true, if_false]
    split
    · exact s.failTask_steps e
    · exact .answer (.refl s) rfl (.refuse e)

theorem acknowledge_steps (s : State P) (u : Update) (h : UpdateHandler P.Val P.Code)
    (input : Ret P.Val) : Steps (.update u false) s (s.acknowledge u h input) := by
  unfold acknowledge
  split
  · exact s.updateError_steps u false _
  · next hfresh => exact .accept (.refl s) rfl hfresh _ _

theorem validate_steps (s : State P) (u : Update) (h : UpdateHandler P.Val P.Code)
    (input : Ret P.Val) : Steps (.update u false) s (s.validate u h input) := by
  unfold validate
  split
  · split
    · exact .call (.of_ctx (.misc _ _ _ _)) _ rfl
    · exact .call (.refl s) _ rfl
  · exact s.acknowledge_steps u h input

theorem startUpdate_steps (s : State P) (u : Update) :
    Steps (.update u false) s (s.startUpdate u) := by
  have hrefused (e : Error) : Steps (.update u false) s ([], s.respond u (.rejected e)) :=
    .answer (.refl s) rfl (.refuse e)
  unfold startUpdate
  split
  · exact hrefused _
  · split
    · exact hrefused _
    · split
      · exact hrefused _
      · split
        · exact .call (.refl s) _ rfl
        · exact .call (.refl s) _ rfl
        · exact s.updateError_steps u false _

theorem phaseEnd_steps {role : Role} (s : State P) (label : String) (ended : Ended P)
    {failed : Error → Outcome P} {ok : Ret P.Val → Outcome P}
    (hf : ∀ e, Steps role s (failed e)) (hk : ∀ v, Steps role s (ok v)) :
    Steps role s (s.phaseEnd label ended failed ok) := by
  unfold phaseEnd
  split
  · split
    · exact .calm (.refl s)
    · exact hf _
  · exact hf _
  · exact hk _

theorem settleDecoded_steps {role : Role} (s : State P) (f : Nat) (r : Result P.Val) :
    Steps role s (s.settleDecoded f r) := by
  have h := Changes.of_acts (s.settle_acts f r)
  unfold settleDecoded
  split
  · next s' x heq =>
    rw [heq] at h
    exact .calm (h.trans (.of_other s'.memory s'.started (some x)))
  · next heq =>
    rw [heq] at h
    exact .calm h

theorem settleCondition_steps {role : Role} (s : State P) (f : Nat) (r : Result P.Val) :
    Steps role s (s.settleCondition f r) := by
  unfold settleCondition
  split
  · have hm : Changes s { s with ctx := s.ctx.removeCondition f } := .of_ctx (.misc _ _ _ _)
    have h := hm.trans (.of_acts (settle_acts _ f r))
    split
    · next s' x heq =>
      rw [heq] at h
      exact .calm (h.trans (.of_sched (.recordFailure x)))
    · next s' resp _ heq =>
      rw [heq] at h
      exact .calm h
  · exact .calm (.refl s)

theorem restoreRandomness_changes (s : State P) (restore : Option Bool) :
    Changes s (s.restoreRandomness restore) := by
  cases restore with
  | none => exact .refl s
  | some previous => exact .of_ctx (.misc _ _ _ _)

/-- Continuing after the code of a frame ended, one case per frame. The role of the frame is that of
whatever is called next, which is how a phase of an update hands over to the following one. -/
theorem finish_steps (s : State P) (ended : Ended P) (frame : Frame P) :
    Steps frame.role s (s.finish ended frame) := by
  cases frame with
  | root => exact s.phaseEnd_steps _ _ s.fail_steps fun _ => .call (.refl s) _ rfl
  | rootEncode =>
    simp only [finish]
    split
    · exact s.failTask_steps _
    · exact s.emitTerminal_steps rfl
  | signal =>
    simp only [finish]
    split
    · exact s.raiseFiber_steps _
    · exact s.fail_steps _
    · exact .calm (.refl s)
  | updateDecode u h =>
    exact s.phaseEnd_steps _ _ (s.updateError_steps u false) fun v => s.validate_steps u h v
  | updateValidate u h input restore =>
    simp only [finish]
    refine .after (s.restoreRandomness_changes restore) ?_
    split
    · exact updateError_steps _ u false _
    · exact acknowledge_steps _ u h input
  | updateRun u h =>
    exact s.phaseEnd_steps _ _ (s.updateError_steps u true) fun _ => .call (.refl s) _ rfl
  | updateEncode u =>
    exact s.phaseEnd_steps _ _ (s.updateError_steps u true)
      fun _ => .answer (.refl s) rfl (.finish _ nofun)
  | callback =>
    simp only [finish]
    split
    · exact s.raiseFiber_steps _
    · exact .calm (.refl s)
  | predicate f =>
    simp only [finish]
    split
    · exact s.settleCondition_steps f _
    · split
      · exact s.settleCondition_steps f _
      · exact .calm (.refl s)
  | query queryId restore =>
    let ctx : Context P := { s.ctx with randomnessDisabled := restore, queryRead := false }
    exact .calm (.trans (b := { s with ctx }) (.of_ctx (.misc _ _ _ _)) (.of_ctx (.emit _ rfl)))
  | decodeActivity f => exact s.settleDecoded_steps f _
  | decodeChild f => exact s.settleDecoded_steps f _

/-! ### Queued work and jobs

What the scheduler loop and the job pass call. Both kinds of retry work, updates and patch
notifications change the state in one update together with the queue or the job list, and are left
to the constructors of `Turn`. -/

theorem spawned_steps {role : Role} {s : State P} {r : Outcome P} (h : Steps role s r) :
    Steps role s (s.spawned r) := by
  unfold spawned
  split
  · exact h
  · exact .calm (.refl s)

/-- Running what was dequeued, in the role it was queued for. The retry work of a
local activity changes the context in the same update that takes it from the queue,
so that here it is only seen when it is discarded. -/
theorem invoke_steps (s : State P) {th : Thunk P} (hth : th.isRetry = true →
    s.sched.active = false) :
    Steps th.role s (s.invoke th) := by
  cases th with
  | root =>
    refine spawned_steps ?_
    split
    · exact fail_steps _ _
    · exact .call (.refl _) _ rfl
  | signal code => exact spawned_steps (.call (.refl _) _ rfl)
  | update u => exact spawned_steps (startUpdate_steps _ u)
  | backoffTimer | backoffRetry =>
    simp only [invoke, spawned, hth rfl]
    exact .calm (.refl s)
  | resume k r =>
    simp only [invoke]
    split
    · exact .call (.refl s) _ rfl
    · exact .call (.refl s) _ rfl
  | deliver id result =>
    simp only [invoke]
    split
    · exact .call (.of_sched (.clearToken id)) _ rfl
    · exact .calm (.of_sched (.clearToken id))
  | callback code =>
    simp only [invoke]
    split
    · exact .call (.refl s) _ rfl
    · exact .calm (.refl s)

theorem applied_steps {s : State P} {a : Applied P} (h : a.From s) :
    Steps .attached s (applied a) := by
  cases a with
  | ok s' => exact .calm (.of_acts h)
  | error s' e => exact .after (.of_acts h) (s'.fail_steps e)
  | raised s' x =>
    exact .calm ((Changes.of_acts h).trans (.of_other s'.memory s'.started (some x)))
  | decode s' code frame => exact .call (.of_acts h.1) code (Frame.role_eq_attached.mpr h.2)

theorem spawnJob_steps (s : State P) {th : Thunk P} (hth : th.isPlain = true) :
    Steps .attached s (s.spawnJob th) := by
  unfold spawnJob Scheduler.spawn
  split
  · exact .calm (.of_other s.memory s.started _)
  · next sched h =>
    split at h
    · cases h
      exact .calm (.of_sched (.enqueue th hth))
    · cases h

/-- Applying one job, updates, patch notifications and timers apart. -/
theorem processJob_steps (s : State P) (job : Job) (hjob : ∀ u, job ≠ .doUpdate u)
    (hpatch : ∀ patchId, job ≠ .notifyHasPatch patchId) (hfire : ∀ n, job ≠ .fireTimer n)
    (hrunning : s.sched.running = false) : Steps .attached s (s.processJob job) := by
  cases job with
  | startWorkflow =>
    simp only [processJob]
    split
    · exact s.fail_steps _
    · exact .calm (.of_other s.memory true s.escaped)
  | resolveActivity seq result => exact applied_steps (s.resolveActivity_from seq result)
  | resolveLocalActivityBackoff seq attempt ms time =>
    exact applied_steps (s.resolveLocalActivityBackoff_from seq attempt ms time)
  | resolveChildWorkflowStart seq result =>
    exact applied_steps (s.resolveChildWorkflowStart_from seq result)
  | resolveChildWorkflow seq result => exact applied_steps (s.resolveChildWorkflow_from seq result)
  | resolveSignalExternalWorkflow seq result =>
    exact applied_steps (s.resolveExternalWorkflow_from .signal seq result)
  | resolveRequestCancelExternalWorkflow seq result =>
    exact applied_steps (s.resolveExternalWorkflow_from .cancel seq result)
  | queryWorkflow queryId queryType arguments headers =>
    simp only [processJob, processQuery]
    split
    · exact .calm (.of_ctx (.emit _ rfl))
    · exact .call (.of_ctx (.misc _ _ _ _)) _ rfl
  | doUpdate u => exact absurd rfl (hjob u)
  | signalWorkflow name input identity headers =>
    simp only [processJob]
    split
    · exact s.failTask_steps _
    · exact s.spawnJob_steps rfl
  | notifyHasPatch patchId => exact absurd rfl (hpatch patchId)
  | updateRandomSeed seed =>
    simp only [processJob, Context.updateRandomSeed]
    split
    · next ctx h =>
      split at h
      · cases h
      · split at h
        · cases h
        · cases h
          exact .calm (.of_ctx (.misc _ _ _ _))
    · exact .calm (.of_other s.memory s.started _)
  | fireTimer n => exact absurd rfl (hfire n)
  | cancelWorkflow => exact s.emitTerminal_steps rfl
  | removeFromCache =>
    refine .shut (.shutdown s.terminal true s.taskFailure id (fun _ => rfl) id fun h => ?_)
    rw [hrunning] at h
    cases h

theorem contextShutdown_active (s : State P) : s.contextShutdown.2.sched.active = false := by
  unfold contextShutdown
  dsimp only
  split
  · rfl
  · next h => exact Bool.eq_false_iff.mpr h

theorem contextShutdown_isSealed (s : State P) : s.contextShutdown.2.ctx.isSealed = true := by
  unfold contextShutdown
  dsimp only
  split <;> rfl

/-- A task failure is found in the commands only at the end of an activation, so the
discarded batch and the shutdown can be taken in either order. -/
theorem activateTail_steps {role : Role} (s : State P) (hrunning : s.sched.running = false) :
    Steps role s s.activateTail := by
  have hnot (h : s.sched.running = true) : s.ctx.hasBufferedTerminal = false := by
    rw [hrunning] at h
    cases h
  unfold activateTail
  split
  · next e _ =>
    unfold poisonTask
    dsimp only
    split
    · next e' he' =>
      have hfailed : s.taskFailure.isSome = true := by rw [he']; rfl
      exact .calm (.trans (.single (.discardCommands (.inr hfailed))) (.single .returnNothing))
    · next hnone =>
      let e₁ : State P := { s with taskFailure := some e, terminal := true, pendingUpdates := [] }
      have hend : Ending s e₁ :=
        .shutdown true s.evicted (some e) (fun _ => rfl) id (fun _ => rfl) hnot
      have h : Steps role s (e₁.contextShutdown.1 ++ [.discardCommands], _) :=
        .ended (.refl s) hend (.trans (.single (.discardCommands (.inl e₁.contextShutdown_active)))
          (.single .returnNothing)) rfl (.inr rfl)
      convert h using 2
      all_goals
        unfold contextShutdown
        dsimp only
        split <;> rfl
  · dsimp only
    split
    · exact .shut (.finalize hrunning)
    · next hended =>
      exact .calm (.single (.takeCommands (Bool.eq_false_iff.mpr hended)))

end State

/-! ### Turns

A turn is one step of the machine with the tasks it pushes: the calls that were made, and after them
what the task leaves to itself. -/

/-- The tasks a task leaves to itself or to its loop, next to the calls it made. -/
inductive Task.Next (s : State P) : Task P → List (Task P) → Prop
  | run {code : P.Code} {frame : Frame P} : Next s (.run code frame) []
  -- the loop of the scheduler
  | idle (h : s.sched.queue = []) : Next s .drain [.afterIdle]
  | notify (h : s.sched.queue = []) (waiters : List (Nat × P.Code)) :
      Next s .drain [.notify waiters, .afterIdle]
  | stopped (h : s.sched.queue = [] ∨ s.sched.abortRequested = true) : Next s .drain []
  | notified : Next s (.notify []) []
  | checked {w : Nat × P.Code} {waiters : List (Nat × P.Code)} :
      Next s (.notify (w :: waiters)) [.notify waiters]
  | redrain : Next s .afterIdle [.drain]
  | drained (h : s.sched.queue = []) : Next s .afterIdle []
  -- the loops of a shutdown
  | tornDown : Next s (.teardown []) []
  | released : Next s (.discontinue []) []
  | resumed (h : s.sched.running = true) : Next s .afterTeardown []
  | closing (h : s.sched.running = false) : Next s .afterTeardown [.shutdownDrain]
  | closed (h : s.sched.queue = []) : Next s .shutdownDrain []
  | cleared : Next s .clearTables []
  | discarded : Next s .discardCommands []
  -- the activation
  | jobs {job : Job} {js : List Job} {wasStarted queryOnly : Bool} :
      Next s (.jobs (job :: js) wasStarted queryOnly) [.jobs js wasStarted queryOnly]
  | queried {js : List Job} {wasStarted queryOnly : Bool} :
      Next s (.jobs js wasStarted queryOnly) [.activateTail]
  | returned {js : List Job} {wasStarted queryOnly : Bool} :
      Next s (.jobs js wasStarted queryOnly) []
  | finished : Next s .activateTail []

/-- The roles of the code a task calls by itself. -/
def Task.Plays : Task P → Role → Prop
  | .run _ frame, role => role = frame.role
  | .notify _, role | .jobs _ _ _, role => role = .attached
  | _, role => role = .callback

/-- The loops that take work from the run queue: the scheduler's own, unless it was told to abort,
and the one that a shutdown runs to get rid of the rest. -/
def Task.Pops (s : State P) (t : Task P) : Prop :=
  t = .drain ∧ s.sched.abortRequested = false ∨ t = .shutdownDrain

/-- What one step can do. Most steps make calls (`steps`); the others are those that touch the front
of the queue, the captured continuations or the scheduler's flags, each with what it needs to be
allowed. -/
inductive State.Turn (s : State P) : Task P → Outcome P → Prop
  -- calls that leave the captured continuations and the front of the queue alone
  | steps {t : Task P} {r : Outcome P} {next : List (Task P)} {role : Role}
      (h : Steps role s r) (hrole : t.Plays role) (hnext : t.Next s next) :
      Turn s t (r.1 ++ next, r.2)
  -- the operations on observers and patches, with the reply the code gets
  | own {code : P.Code} {frame : Frame P} {op : Op P.Val P.Code} {k : Resp P.Val → P.Code}
      {memory : P.Mem} {s' : State P} {resp : Resp P.Val}
      (hview : P.view code s.memory = (memory, .perform op k)) (hop : op.isOwn = true)
      (hreply : ({ s with memory } : State P).perform op = .reply s' resp) :
      Turn s (.run code frame) ([.run (k resp) frame], s')
  | deliver {u : Update} {js : List Job} {wasStarted queryOnly : Bool} :
      Turn s (.jobs (.doUpdate u :: js) wasStarted queryOnly)
        ([.jobs js wasStarted queryOnly], { s with sched := s.sched.enqueue (.update u) })
  | patch {patchId : String} {js : List Job} {wasStarted queryOnly : Bool} :
      Turn s (.jobs (.notifyHasPatch patchId :: js) wasStarted queryOnly)
        ([.jobs js wasStarted queryOnly], { s with ctx := s.ctx.notifyHasPatch patchId })
  -- the retry timer of a local activity fires, which only the job that names it does
  | fired {n : Nat} {js : List Job} {wasStarted queryOnly : Bool} {s' : State P}
      (h : State.Fired n s s') :
      Turn s (.jobs (.fireTimer n :: js) wasStarted queryOnly) ([.jobs js wasStarted queryOnly], s')
  -- the front of the queue runs
  | dispatch {t : Task P} {th : Thunk P} {sched : Scheduler P} {r : Outcome P} (ht : t.Pops s)
      (hpop : s.sched.pop = some (th, sched)) (h : Steps th.role { s with sched } r) :
      Turn s t (r.1 ++ [t], r.2)
  | retried {t : Task P} {s' : State P} (ht : t.Pops s) (h : State.Retried s s') :
      Turn s t ([t], s')
  | suspend {code : P.Code} {frame : Frame P} {f : Nat} {k : Resp P.Val → P.Code}
      {waiters : List (Cont P)} {observers : List Nat} (memory : P.Mem)
      (hframe : frame.handled = true) (hlive : s.sched.live = true)
      (hcell : s.sched.cellState f = some (.pending waiters observers)) :
      Turn s (.run code frame) ([], { s with memory, sched := s.sched.addWaiter f k frame })
  | teardown {f : Nat} {futures : List Nat} (h : s.sched.active = false) :
      Turn s (.teardown (f :: futures)) ([.discontinue (s.sched.teardown f).2, .teardown futures],
        { s with sched := (s.sched.teardown f).1 })
  | release {k : Cont P} {waiters : List (Cont P)} {code : P.Code} :
      Turn s (.discontinue (k :: waiters)) ([.run code k.frame, .discontinue waiters], s)
  | beginRun {s' : State P} {js : List Job} {wasStarted queryOnly : Bool} (h : Changes s s')
      (hactive : s'.sched.active = true) :
      Turn s (.jobs js wasStarted queryOnly) ([.drain, .runTail, .activateTail],
        { s' with sched := s'.sched.beginRun })
  | endRun {r : Outcome P} (h : Steps .callback { s with sched := s.sched.endRun } r) :
      Turn s .runTail r

namespace State

theorem Task.plays (t : Task P) : ∃ role, t.Plays role := by
  cases t <;> exact ⟨_, rfl⟩

variable {t : Task P}

theorem Turn.calm {s s' : State P} {next : List (Task P)} (h : Changes s s')
    (hnext : t.Next s next) :
    Turn s t (next, s') := by
  obtain ⟨role, hrole⟩ := Task.plays t
  exact .steps (.calm h) hrole hnext

theorem Turn.of_steps {s : State P} {r : Outcome P} {role : Role} (h : Steps role s r)
    (hrole : t.Plays role) (hnext : t.Next s []) : Turn s t r := by
  have := Turn.steps h hrole hnext
  rwa [List.append_nil] at this

theorem runCode_turn (s : State P) (code : P.Code) (frame : Frame P) :
    Turn s (.run code frame) (s.runCode code frame) := by
  unfold runCode
  dsimp only
  rcases hview : P.view code s.memory with ⟨memory, node⟩
  have hmem : Changes s { s with memory } := .of_other memory s.started s.escaped
  cases node with
  | ret result => exact .of_steps (.after hmem (finish_steps _ _ frame)) rfl .run
  | raise x => exact .of_steps (.after hmem (finish_steps _ _ frame)) rfl .run
  | perform op k =>
    have hop := perform_spec { s with memory } op
    simp only [interact]
    split
    · next s' resp heq =>
      cases hown : op.isOwn with
      | true => exact .own hview hown heq
      | false =>
        rw [heq, hown] at hop
        exact .of_steps (.call (hmem.trans (.of_acts hop)) _ rfl) rfl .run
    · next f heq =>
      rw [heq] at hop
      obtain ⟨hlive, waiters, observers, hcell⟩ := hop
      split
      · next hframe => exact .suspend memory hframe hlive hcell
      · exact .of_steps (.call hmem _ rfl) rfl .run
    · next s' heq =>
      rw [heq] at hop
      obtain ⟨command, hterminal, rfl⟩ := hop
      split
      · have h : Changes { s with memory } _ := .single (.terminate command hterminal true)
        exact .of_steps (.call (hmem.trans h) _ rfl) rfl .run
      · have h : Changes { s with memory } _ := .single (.terminate command hterminal false)
        exact .of_steps (.call (hmem.trans h) _ rfl) rfl .run

/-- Dequeuing and running the front of the queue. -/
theorem pop_invoke_turn (s : State P) {th : Thunk P} {sched : Scheduler P} (ht : t.Pops s)
    (h : s.sched.pop = some (th, sched)) :
    Turn s t ((({ s with sched } : State P).invoke th).1 ++ [t],
      (({ s with sched } : State P).invoke th).2) := by
  by_cases hth : th.isRetry = true ∧ sched.active = true
  · obtain ⟨hretry, hactive⟩ := hth
    cases th with
    | backoffTimer seq attempt ms time =>
      simp only [invoke, spawned, hactive, if_true]
      rcases s.ctx.startBackoffTimer_cases seq attempt ms time with heq | ⟨la, hla, hqueued, heq⟩
      · rw [heq]
        exact .retried ht (.left h)
      · rw [heq]
        exact .retried ht (.startBackoffTimer h hla hqueued)
    | backoffRetry seq attempt time =>
      simp only [invoke, spawned, hactive, if_true]
      rcases s.ctx.retryLocalActivity_cases seq attempt time with heq | ⟨la, hla, hqueued, heq⟩
      · rw [heq]
        exact .retried ht (.left h)
      · rw [heq]
        exact .retried ht (.retryLocalActivity h hla hqueued)
    | _ => cases hretry
  · refine .dispatch ht h (invoke_steps _ fun hretry => ?_)
    exact Bool.eq_false_iff.mpr fun hactive => hth ⟨hretry, hactive⟩

theorem drain_turn (s : State P) : Turn s .drain s.drain := by
  unfold drain
  split
  · next th sched hpop habort => exact s.pop_invoke_turn (.inl ⟨rfl, habort⟩) hpop
  · next hnot =>
    have hstopped : s.sched.queue = [] ∨ s.sched.abortRequested = true := by
      cases hq : s.sched.queue with
      | nil => exact .inl rfl
      | cons entry rest =>
        right
        by_contra habort
        exact hnot entry.2 _ (by rw [Scheduler.pop, hq]) (Bool.eq_false_iff.mpr habort)
    split
    · next hidle =>
      have hempty : s.sched.queue = [] := by
        simp only [Bool.and_eq_true, Bool.not_eq_true'] at hidle
        exact hstopped.resolve_right (by rw [hidle.1.2]; exact Bool.false_ne_true)
      split
      · exact .calm (.refl s) (.idle hempty)
      · exact .calm (.refl s) (.notify hempty _)
    · exact .calm (.refl s) (.stopped hstopped)

theorem runTail_turn (s : State P) : Turn s .runTail s.runTail := by
  refine .endRun ?_
  unfold runTail
  dsimp only
  split
  · exact poisonTask_steps _ _ fun _ hrunning => by cases hrunning
  · exact .calm (.refl _)

theorem afterJobs_turn (s : State P) (js : List Job) (wasStarted queryOnly : Bool) :
    Turn s (.jobs js wasStarted queryOnly) (s.afterJobs wasStarted queryOnly) := by
  unfold afterJobs
  split
  · exact .calm (.single .returnNothing) .returned
  · split
    · exact .calm (.refl s) .queried
    · split
      · next hactive =>
        dsimp only
        split
        · have hroot : Changes s { s with sched := s.sched.enqueue .root } :=
            .of_sched (.enqueue .root rfl)
          exact .beginRun hroot ((s.sched.enqueue_active _).trans hactive)
        · exact .beginRun (.refl s) hactive
      · exact .calm (.of_other s.memory s.started _) .returned

/-- Queueing a retry; a scheduler that is shut down makes the job raise. -/
theorem spawnRetry_applied (s : State P) (ctx : Context P) (th : Thunk P) :
    ∃ escaped, applied (s.spawnRetry ctx th) =
      ([], { s with ctx, sched := s.sched.enqueue th, escaped }) := by
  rcases s.spawnRetry_cases ctx th with heq | ⟨x, heq⟩
  · rw [heq]
    exact ⟨s.escaped, rfl⟩
  · rw [heq]
    exact ⟨some x, rfl⟩

theorem fireTimer_turn (s : State P) (n : Nat) (js : List Job) (wasStarted queryOnly : Bool) :
    Turn s (.jobs (.fireTimer n :: js) wasStarted queryOnly)
      ((applied (s.fireTimer n)).1 ++ [.jobs js wasStarted queryOnly],
        (applied (s.fireTimer n)).2) := by
  rcases s.fireTimer_cases n with h | ⟨seq, attempt, time, la, t, htimer, hla, ht, heq⟩
  · exact .steps (applied_steps h) rfl .jobs
  · rw [heq]
    obtain ⟨escaped, hspawn⟩ := spawnRetry_applied { s with ctx := s.ctx.removeTimer n }
      ((s.ctx.removeTimer n).queueRetry n seq la) (.backoffRetry seq attempt time)
    rw [hspawn]
    exact .fired (.retry htimer hla ht escaped)

theorem job_turn (s : State P) (job : Job) (js : List Job) (wasStarted queryOnly : Bool)
    (hrunning : s.sched.running = false) :
    Turn s (.jobs (job :: js) wasStarted queryOnly)
      ((s.processJob job).1 ++ [.jobs js wasStarted queryOnly], (s.processJob job).2) := by
  by_cases hjob : ∀ u, job ≠ .doUpdate u
  · by_cases hpatch : ∀ patchId, job ≠ .notifyHasPatch patchId
    · by_cases hfire : ∀ n, job ≠ .fireTimer n
      · exact .steps (s.processJob_steps job hjob hpatch hfire hrunning) rfl .jobs
      · obtain ⟨n, rfl⟩ := not_forall_not.mp hfire
        exact s.fireTimer_turn n js wasStarted queryOnly
    · obtain ⟨patchId, rfl⟩ := not_forall_not.mp hpatch
      exact .patch
  · obtain ⟨u, rfl⟩ := not_forall_not.mp hjob
    simp only [processJob, spawnJob, Scheduler.spawn]
    split
    · exact .calm (.of_other s.memory s.started _) .jobs
    · next sched h =>
      split at h
      · cases h
        exact .deliver
      · cases h

end State

/-- The tasks that only run outside the scheduler loop. -/
def Task.isIdle : Task P → Bool
  | .jobs _ _ _ | .activateTail => true
  | _ => false

/-- What holds while a task waits: the loops of a shutdown run on an inactive
scheduler, and the tables are cleared after the context was sealed. -/
def Task.Guard (s : State P) : Task P → Prop
  | .teardown _ | .discontinue _ | .afterTeardown | .shutdownDrain | .discardCommands =>
    s.sched.active = false
  | .clearTables => s.ctx.isSealed = true
  | _ => True

namespace State

/-- **What a step does.** Under the guard of its task every step is a turn. This is the one place
where all tasks of the machine are gone through. -/
theorem step_turn (s : State P) (t : Task P) (h : t.Guard s)
    (hidle : t.isIdle = true → s.sched.running = false) : Turn s t (s.step t) := by
  cases t with
  | run code frame => exact s.runCode_turn code frame
  | drain => exact s.drain_turn
  | notify waiters =>
    cases waiters with
    | nil => exact .calm (.refl s) .notified
    | cons w waiters =>
      simp only [step]
      split
      · exact .steps (.call (.refl s) _ rfl) rfl .checked
      · exact .calm (.refl s) .checked
  | afterIdle =>
    simp only [step]
    split
    · next hempty => exact .calm (.refl s) (.drained (List.isEmpty_iff.mp hempty))
    · exact .calm (.refl s) .redrain
  | runTail => exact s.runTail_turn
  | teardown futures =>
    cases futures with
    | nil => exact .calm (.refl s) .tornDown
    | cons f futures => exact .teardown h
  | discontinue waiters =>
    cases waiters with
    | nil => exact .calm (.refl s) .released
    | cons k waiters => exact .release
  | afterTeardown =>
    simp only [step]
    split
    · next hrunning => exact .calm (.refl s) (.resumed hrunning)
    · next hrunning => exact .calm (.refl s) (.closing (Bool.eq_false_iff.mpr hrunning))
  | shutdownDrain =>
    simp only [step]
    split
    · next hpop =>
      refine .calm (.refl s) (.closed ?_)
      unfold Scheduler.pop at hpop
      split at hpop
      · assumption
      · cases hpop
    · next th sched hpop => exact s.pop_invoke_turn (.inr rfl) hpop
  | clearTables => exact .calm (.single (.clearTables h)) .cleared
  | discardCommands => exact .calm (.single (.discardCommands (.inl h))) .discarded
  | jobs js wasStarted queryOnly =>
    simp only [step]
    split
    · exact .calm (.refl s) .returned
    · split
      · exact s.afterJobs_turn [] wasStarted queryOnly
      · next job rest =>
        split
        · exact s.job_turn job rest wasStarted queryOnly (hidle rfl)
        · exact .calm (.refl s) .jobs
  | activateTail => exact .of_steps (s.activateTail_steps (hidle rfl)) rfl .finished

end State

/-! ### What calls keep of the scheduler

The shape of the stack depends on the flags of the scheduler, and its continuations on what the
scheduler holds. Neither moves with an update of `Changes`. -/

/-- Calls neither enter nor leave the scheduler loop, and they capture nothing. -/
structure Scheduler.Keeps (s s' : Scheduler P) : Prop where
  running : s'.running = s.running
  active : s'.active = s.active
  held : s'.held ⊆ s.held

namespace Scheduler

variable {s s' : Scheduler P} {th : Thunk P}

theorem Keeps.refl (s : Scheduler P) : s.Keeps s := ⟨rfl, rfl, List.Subset.refl _⟩

theorem Keeps.trans {a b c : Scheduler P} (h : a.Keeps b) (h' : b.Keeps c) : a.Keeps c :=
  ⟨h'.running.trans h.running, h'.active.trans h.active, List.Subset.trans h'.held h.held⟩

theorem enqueue_keeps (s : Scheduler P) (hth : th.cont? = none) : s.Keeps (s.enqueue th) := by
  refine ⟨?_, s.enqueue_active th, fun _ => mem_held_enqueue hth⟩
  rw [enqueue_eq_enqueueAll, enqueueAll_frame]

theorem pop_keeps (h : s.pop = some (th, s')) : s.Keeps s' := by
  have hheld : s'.held ⊆ s.held := fun _ => mem_held_pop h
  obtain ⟨n, rest, -, rfl⟩ := pop_eq_some h
  exact ⟨rfl, rfl, hheld⟩

end Scheduler

theorem State.Act.keeps (h : State.Act s s') : s.sched.Keeps s'.sched := by
  cases h with
  | sched h => exact ⟨h.frame.2.1, h.frame.1, h.held_subset⟩
  | acceptBackoff => exact s.sched.enqueue_keeps rfl
  | ctx | other => exact .refl _

theorem State.Fired.keeps {n : Nat} (h : State.Fired n s s') : s.sched.Keeps s'.sched := by
  cases h with
  | retry => exact s.sched.enqueue_keeps rfl

theorem State.Retried.keeps (h : State.Retried s s') : s.sched.Keeps s'.sched := by
  cases h with
  | startBackoffTimer h | retryLocalActivity h | left h => exact Scheduler.pop_keeps h

theorem State.Own.keeps (h : State.Own s s') : s.sched.Keeps s'.sched := by
  cases h with
  | link h => exact ⟨h.frame.2, h.frame.1, h.held_subset⟩
  | patch | refused => exact .refl _

theorem State.Change.keeps (h : State.Change s s') : s.sched.Keeps s'.sched := by
  cases h with
  | act h => exact h.keeps
  | terminate command h aborted => cases aborted <;> exact ⟨rfl, rfl, List.Subset.refl _⟩
  | _ => exact .refl _

theorem Changes.keeps (h : Changes s s') : s.sched.Keeps s'.sched := by
  induction h with
  | refl => exact .refl _
  | tail _ hbc ih => exact ih.trans hbc.keeps

theorem State.Ending.sched {e : State P} (h : State.Ending s e) : e.sched = s.sched := by
  cases h <;> rfl

theorem State.Answer.sched {u : Update} {accepted : Bool} (h : State.Answer u accepted s s') :
    s'.sched = s.sched := by
  cases h <;> rfl

theorem State.contextShutdown_kept (s : State P) :
    s.contextShutdown.2.sched.running = s.sched.running ∧
      s.contextShutdown.2.sched.held = s.sched.held := by
  unfold State.contextShutdown
  dsimp only
  split <;> exact ⟨rfl, rfl⟩

/-- A call keeps what its updates keep, except that a shutdown stops the scheduler. -/
theorem Steps.kept {role : Role} (h : Steps role s r) :
    r.2.sched.running = s.sched.running ∧ r.2.sched.held ⊆ s.sched.held := by
  cases h with
  | calm h | call h | accept h => exact ⟨h.keeps.running, h.keeps.held⟩
  | answer h _ hanswer =>
    rw [hanswer.sched]
    exact ⟨h.keeps.running, h.keeps.held⟩
  | @ended m e _ _ h hend _ hsched =>
    rw [hsched, e.contextShutdown_kept.1, e.contextShutdown_kept.2, hend.sched]
    exact ⟨h.keeps.running, h.keeps.held⟩

/-! ### What a turn keeps

Guards hold from the push of a task to its turn: the updates in between can shut a scheduler down
and seal a context, but not undo either. -/

/-- The retry timer a task may fire: that of its next job. -/
def Task.Fires : Task P → Nat → Prop
  | .jobs (.fireTimer n :: _) _ _, m => m = n
  | _, _ => False

/-- Every turn is a sequence of primitive updates. -/
theorem State.Turn.moves (h : State.Turn s t r) : Moves t.Fires s r.2 := by
  cases h with
  | steps h _ => exact h.moves
  | deliver => exact .single (.tied (.delivered _))
  | own _ hop hreply =>
    have hspec := perform_spec (P := P) _ _ |>.of_own hop hreply
    exact (Changes.of_other _ s.started s.escaped).moves.trans (.single (.own hspec))
  | patch => exact .single (.own (.patch (.notifyHasPatch _)))
  | fired h => exact .single (.fired rfl h)
  | dispatch _ hpop h => exact .trans (.single (.tied (.pop hpop))) h.moves
  | retried _ h => exact .single (.retried h)
  | @suspend code frame f k waiters observers memory hframe hlive hcell =>
    exact (Changes.of_other memory s.started s.escaped).moves.trans
      (.single (.tied (.addWaiter (s := s.sched) k frame hlive hcell)))
  | teardown h => exact .single (.tied (.teardown _ h))
  | release => exact .refl
  | beginRun h hactive => exact h.moves.trans (.single (.tied (.beginRun hactive)))
  | endRun h => exact .trans (.single (.tied .endRun)) h.moves

theorem State.Turn.progress (h : State.Turn s t r) : Progress s r.2 :=
  h.moves.progress

theorem Task.Guard.progress (ht : t.Guard s) (h : Progress s s') : t.Guard s' := by
  cases t with
  | teardown | discontinue | afterTeardown | shutdownDrain | discardCommands =>
    exact h.inactive ht
  | clearTables => exact h.sealed ht
  | _ => trivial

/-- The calls made by user code, jobs or the end of an activation; the others
are the frames of `activate` itself and the code attached to them. -/
def Task.isInner : Task P → Bool
  | .run _ frame => !frame.isAttached
  | .drain | .notify _ | .afterIdle | .runTail | .jobs _ _ _ | .activateTail => false
  | _ => true

theorem State.contextShutdown_tasks (s : State P) : ∀ t ∈ s.contextShutdown.1,
    t.isInner = true ∧ t.held = [] ∧ t.Guard s.contextShutdown.2 := by
  unfold State.contextShutdown
  dsimp only
  split <;> simp [Task.isInner, Task.held, Task.Guard, Scheduler.deactivate, Context.close]

/-- What a call pushes: code, or the tasks of a shutdown. -/
theorem Steps.calls {role : Role} (h : Steps role s r) :
    (∃ code frame, r.1 = [.run code frame] ∧ (frame.isAttached = true → role = .attached)) ∨
      ∀ t ∈ r.1, t.isInner = true ∧ t.held = [] ∧ t.Guard r.2 := by
  cases h with
  | calm | answer => exact .inr (by simp)
  | call _ code hframe =>
    exact .inl ⟨code, _, rfl, fun h => hframe.symm.trans (Frame.role_eq_attached.mpr h)⟩
  | accept _ _ _ code handler => exact .inl ⟨code, _, rfl, nofun⟩
  | @ended m e s' rest _ _ hafter _ hrest =>
    refine .inr fun t ht => ?_
    rcases List.mem_append.mp ht with ht | ht
    · obtain ⟨hinner, hheld, hguard⟩ := e.contextShutdown_tasks t ht
      exact ⟨hinner, hheld, hguard.progress hafter.progress⟩
    · rcases hrest with rfl | rfl
      · cases ht
      · rw [List.mem_singleton.mp ht]
        exact ⟨rfl, rfl, hafter.progress.inactive e.contextShutdown_active⟩

theorem Steps.tasks {role : Role} (h : Steps role s r) (ht : t ∈ r.1) :
    (role ≠ .attached → t.isInner = true) ∧ t.held = [] ∧ t.Guard r.2 := by
  rcases h.calls with ⟨code, frame, heq, hattached⟩ | hcalls
  · rw [heq] at ht
    rw [List.mem_singleton.mp ht]
    exact ⟨fun hrole => by simpa [Task.isInner] using mt hattached hrole, rfl, trivial⟩
  · exact ⟨fun _ => (hcalls t ht).1, (hcalls t ht).2⟩

theorem Task.Next.guarded {next : List (Task P)} (h : t.Next s next) (ht : t.Guard s) :
    ∀ t' ∈ next, t'.Guard s := by
  cases h with
  | closing => exact fun t' ht' => List.mem_singleton.mp ht' ▸ ht
  | _ => simp [Task.Guard]

theorem State.Turn.guarded (h : State.Turn s t r) (ht : t.Guard s) : ∀ t' ∈ r.1, t'.Guard r.2 := by
  have hprogress := h.progress
  cases h with
  | steps h _ hnext =>
    intro t' ht'
    rcases List.mem_append.mp ht' with h' | h'
    · exact (h.tasks h').2.2
    · exact (hnext.guarded ht t' h').progress hprogress
  | own | deliver | patch | fired => simp [Task.Guard]
  | dispatch _ _ h =>
    intro t' ht'
    rcases List.mem_append.mp ht' with h' | h'
    · exact (h.tasks h').2.2
    · rw [List.mem_singleton.mp h']
      exact ht.progress hprogress
  | suspend => simp
  | retried => exact fun t' ht' => List.mem_singleton.mp ht' ▸ ht.progress hprogress
  | teardown h =>
    have := hprogress.inactive h
    simpa [Task.Guard] using this
  | release =>
    have := hprogress.inactive ht
    simpa [Task.Guard] using this
  | beginRun => simp [Task.Guard]
  | endRun h => exact fun _ ht' => (h.tasks ht').2.2

/-! ### The shape of the stack

`activate` is not reentrant. Below the calls in progress the stack has its frames, in one of a few
forms, and which form it is tells whether the scheduler is running. -/

/-- The frames of `activate` and whether the scheduler runs below them. -/
inductive Outer : Bool → List (Task P) → Prop
  | none : Outer false []
  | jobs (js : List Job) (wasStarted queryOnly : Bool) :
      Outer false [.jobs js wasStarted queryOnly]
  | activateTail : Outer false [.activateTail]
  | drain : Outer true [.drain, .runTail, .activateTail]
  | notify (waiters : List (Nat × P.Code)) :
      Outer true [.notify waiters, .afterIdle, .runTail, .activateTail]
  | afterIdle : Outer true [.afterIdle, .runTail, .activateTail]
  | runTail : Outer true [.runTail, .activateTail]
  /-- Attached code runs right above the frames, never above another call. -/
  | code {running : Bool} {outer : List (Task P)} {code : P.Code} {frame : Frame P}
      (h : frame.isAttached = true) (houter : Outer running outer) :
      Outer running (.run code frame :: outer)

theorem Outer.eq_false {running : Bool} (h : Outer (P := P) running []) : running = false := by
  cases h
  rfl

/-- A stack is some calls above the frames of `activate`. The flag is the scheduler's `running`. -/
def Shaped (running : Bool) (stack : List (Task P)) : Prop :=
  ∃ inner outer, stack = inner ++ outer ∧ (∀ t ∈ inner, t.isInner = true) ∧ Outer running outer

/-- A frame of `activate` on top has no call above the frames. -/
theorem Shaped.outer {running : Bool} (h : Shaped running (t :: ts)) (ht : t.isInner = false) :
    Outer running (t :: ts) := by
  obtain ⟨inner, outer, heq, hinner, houter⟩ := h
  cases inner with
  | cons t' inner' =>
    cases heq
    rw [hinner t List.mem_cons_self] at ht
    cases ht
  | nil => exact heq ▸ houter

/-- The rest of the stack under a call. -/
theorem Shaped.tail {running : Bool} (h : Shaped running (t :: ts)) (ht : t.isInner = true) :
    Shaped running ts := by
  obtain ⟨inner, outer, heq, hinner, houter⟩ := h
  cases inner with
  | cons t' inner' =>
    cases heq
    exact ⟨inner', outer, rfl, fun t' ht' => hinner t' (List.mem_cons_of_mem _ ht'), houter⟩
  | nil =>
    rw [List.nil_append] at heq
    subst heq
    cases houter with
    | code h => simp [Task.isInner, h] at ht
    | _ => cases ht

theorem Shaped.idle {running : Bool} (h : Shaped running (t :: ts)) (ht : t.isIdle = true) :
    running = false := by
  cases t with
  | jobs | activateTail =>
    cases h.outer rfl
    rfl
  | _ => cases ht

theorem Shaped.append {running : Bool} {stack : List (Task P)} (h : Shaped running stack)
    (calls : List (Task P)) (hcalls : ∀ t ∈ calls, t.isInner = true) :
    Shaped running (calls ++ stack) := by
  obtain ⟨inner, outer, rfl, hinner, houter⟩ := h
  refine ⟨calls ++ inner, outer, (List.append_assoc ..).symm, fun t ht => ?_, houter⟩
  rcases List.mem_append.mp ht with ht | ht
  · exact hcalls t ht
  · exact hinner t ht

theorem Outer.shaped {running : Bool} {outer : List (Task P)} (h : Outer running outer) :
    Shaped running outer :=
  ⟨[], outer, rfl, by simp, h⟩

theorem Shaped.jobs {running wasStarted queryOnly : Bool} {js : List Job}
    (h : Shaped running (.jobs js wasStarted queryOnly :: ts)) (rest : List Job) :
    Shaped running (.jobs rest wasStarted queryOnly :: ts) := by
  cases h.outer rfl
  exact (Outer.jobs _ _ _).shaped

/-- The frames of `activate` after one of them left `next`. -/
theorem Task.Next.outer {next : List (Task P)} {running : Bool} (h : t.Next s next)
    (ht : t.isInner = false) (hs : Outer running (t :: ts)) : Outer running (next ++ ts) := by
  cases h with
  | run =>
    cases hs with
    | code _ houter => exact houter
  | tornDown | released | resumed | closed | cleared | discarded | closing =>
    cases ht
  | jobs | queried | returned | finished | idle | notify | stopped | notified | checked
  | redrain | drained =>
    cases hs
    constructor

theorem Task.Next.shaped {next : List (Task P)} {running : Bool} (h : t.Next s next)
    (hs : Shaped running (t :: ts)) : Shaped running (next ++ ts) := by
  cases ht : t.isInner with
  | false => exact (h.outer ht (hs.outer ht)).shaped
  | true =>
    cases h with
    | run | tornDown | released | resumed | closed | cleared | discarded => exact hs.tail ht
    | closing => exact (hs.tail ht).append [.shutdownDrain] (by simp [Task.isInner])
    | _ => cases ht

/-- Only frames of `activate` call attached code. -/
theorem Task.Plays.outer (h : t.Plays .attached) : t.isInner = false := by
  cases t with
  | run code frame => simp [Task.isInner, Frame.role_eq_attached.mp (Eq.symm h)]
  | notify | jobs => rfl
  | _ => cases h

theorem Task.Next.shaped_run {next : List (Task P)} {running : Bool} (h : t.Next s next)
    (hs : Shaped running (t :: ts)) (code : P.Code)
    (hframe : frame.isAttached = true → t.isInner = false) :
    Shaped running (.run code frame :: (next ++ ts)) := by
  cases hattached : frame.isAttached with
  | true =>
    have ht := hframe hattached
    exact (Outer.code hattached (h.outer ht (hs.outer ht))).shaped
  | false => exact (h.shaped hs).append [_] (by simp [Task.isInner, hattached])

/-- Every turn keeps the shape. Calls go on top; `beginRun` and `endRun` change the frames and the
flag together. -/
theorem State.Turn.shaped (h : State.Turn s t r) (hs : Shaped s.sched.running (t :: ts))
    (hconts : ∀ k, k ∈ s.sched.held ∨ k ∈ t.held → k.frame.handled = true) :
    Shaped r.2.sched.running (r.1 ++ ts) := by
  cases h with
  | @steps t r next role h hrole hnext =>
    rw [h.kept.1, List.append_assoc]
    rcases h.calls with ⟨code, frame, heq, hattached⟩ | hcalls
    · rw [heq]
      refine hnext.shaped_run hs code fun hframe => ?_
      rw [hattached hframe] at hrole
      exact hrole.outer
    · exact (hnext.shaped hs).append _ fun t ht => (hcalls t ht).1
  | @own code frame op k memory s' resp hview hop hreply =>
    dsimp only
    rw [((perform_spec { s with memory } op).of_own hop hreply).keeps.running]
    exact (Task.Next.run (s := s)).shaped_run hs _ fun hframe => by simp [Task.isInner, hframe]
  | deliver =>
    dsimp only
    rw [(s.sched.enqueue_keeps rfl).running]
    exact hs.jobs _
  | patch => exact hs.jobs _
  | fired h =>
    dsimp only
    rw [h.keeps.running]
    exact hs.jobs _
  | @dispatch t th sched r ht hpop h =>
    have hrole : th.role ≠ .attached := by
      cases th with
      | resume k result =>
        have hhandled := hconts k (.inl (Scheduler.mem_held_of_pop hpop))
        rw [Thunk.role, Ne, Frame.role_eq_attached, Frame.isAttached_of_handled hhandled]
        exact Bool.false_ne_true
      | _ => nofun
    rw [h.kept.1, (Scheduler.pop_keeps hpop).running, List.append_assoc]
    exact hs.append _ fun t ht => (h.tasks ht).1 hrole
  | retried _ h =>
    dsimp only
    rw [h.keeps.running]
    exact hs
  | suspend memory hframe hlive hcell =>
    dsimp only
    rw [Scheduler.addWaiter_of_pending hcell]
    exact hs.tail (by simp [Task.isInner, Frame.isAttached_of_handled hframe])
  | @teardown f futures hactive =>
    have hrunning : (s.sched.teardown f).1.running = s.sched.running := by
      unfold Scheduler.teardown
      split <;> rfl
    dsimp only
    rw [hrunning]
    exact (hs.tail rfl).append [_, _] (by simp [Task.isInner])
  | @release k waiters code =>
    have hhandled := hconts k (.inr (List.mem_cons_self (a := k) (l := waiters)))
    exact (hs.tail rfl).append [.run code k.frame, .discontinue waiters]
      (by simp [Task.isInner, Frame.isAttached_of_handled hhandled])
  | beginRun =>
    generalize s.sched.running = running at hs
    cases hs.outer rfl
    exact Outer.drain.shaped
  | endRun h =>
    rw [h.kept.1]
    generalize s.sched.running = running at hs
    cases hs.outer rfl
    exact Outer.activateTail.shaped.append _ fun t ht => (h.tasks ht).1 nofun

/-! ### The frames of continuations

A continuation is captured under an effect handler only, and it keeps its frame while it waits in a
future, in the queue or in a task of the shutdown. -/

theorem Task.Pops.held (h : t.Pops s) : t.held = [] := by
  rcases h with ⟨rfl, -⟩ | rfl <;> rfl

theorem Task.Next.held {next : List (Task P)} (h : t.Next s next) : ∀ u ∈ next, u.held = [] := by
  cases h <;> simp [Task.held]

theorem State.Turn.handled (h : State.Turn s t r)
    (hconts : ∀ k, k ∈ s.sched.held ∨ k ∈ t.held → k.frame.handled = true) :
    ∀ k, k ∈ r.2.sched.held ∨ (∃ u ∈ r.1, k ∈ u.held) → k.frame.handled = true := by
  intro k hk
  have hkept (hk : k ∈ s.sched.held) : k.frame.handled = true := hconts k (.inl hk)
  -- most turns capture nothing and push tasks that hold nothing
  have hcalls {s' : State P} {us : List (Task P)} (hheld : s'.sched.held ⊆ s.sched.held)
      (hus : ∀ u ∈ us, u.held = []) (hk : k ∈ s'.sched.held ∨ ∃ u ∈ us, k ∈ u.held) :
      k.frame.handled = true := by
    rcases hk with hk | ⟨u, hu, hk⟩
    · exact hkept (hheld hk)
    · rw [hus u hu] at hk
      cases hk
  cases h with
  | steps h _ hnext =>
    refine hcalls h.kept.2 (fun u hu => ?_) hk
    exact (List.mem_append.mp hu).elim (fun hu => (h.tasks hu).2.1) (hnext.held u)
  | @own code frame op k' memory s' resp hview hop hreply =>
    have hown := (perform_spec { s with memory } op).of_own hop hreply
    exact hcalls hown.keeps.held (by simp [Task.held]) hk
  | deliver => exact hcalls (s.sched.enqueue_keeps rfl).held (by simp [Task.held]) hk
  | patch => exact hcalls (List.Subset.refl _) (by simp [Task.held]) hk
  | fired h => exact hcalls h.keeps.held (by simp [Task.held]) hk
  | retried ht h =>
    refine hcalls h.keeps.held (fun u hu => ?_) hk
    rw [List.mem_singleton.mp hu]
    exact ht.held
  | @dispatch t th sched r ht hpop h =>
    refine hcalls (List.Subset.trans h.kept.2 (Scheduler.pop_keeps hpop).held) (fun u hu => ?_) hk
    rcases List.mem_append.mp hu with hu | hu
    · exact (h.tasks hu).2.1
    · rw [List.mem_singleton.mp hu]
      exact ht.held
  | @suspend code frame f k' waiters observers memory hframe hlive hcell =>
    rcases hk with hk | ⟨u, hu, -⟩
    · rw [Scheduler.addWaiter_of_pending hcell] at hk
      rcases Scheduler.mem_held_of_setCell (s := s.sched) rfl rfl hcell hk with hk | hk
      · exact hkept hk
      · rcases List.mem_cons.mp hk with rfl | hk
        · exact hframe
        · exact hkept (Scheduler.mem_held_of_waiters hcell hk)
    · cases hu
  | @teardown f futures hactive =>
    rcases s.sched.teardown_cases f with ⟨ws, os, hcell, heq⟩ | ⟨-, heq⟩
    · rw [heq] at hk
      rcases hk with hk | ⟨u, hu, hk⟩
      · rcases Scheduler.mem_held_of_setCell (s := s.sched) (t := s.sched) rfl rfl hcell hk
          with hk | hk
        · exact hkept hk
        · cases hk
      · simp only [List.mem_cons, List.not_mem_nil, or_false] at hu
        rcases hu with rfl | rfl
        · exact hkept (Scheduler.mem_held_of_waiters hcell (List.mem_reverse.mp hk))
        · cases hk
    · rw [heq] at hk
      exact hcalls (List.Subset.refl _) (by simp [Task.held]) hk
  | @release k' waiters code =>
    rcases hk with hk | ⟨u, hu, hk⟩
    · exact hkept hk
    · simp only [List.mem_cons, List.not_mem_nil, or_false] at hu
      rcases hu with rfl | rfl
      · cases hk
      · exact hconts k (.inr (List.mem_cons_of_mem _ hk))
  | beginRun h => exact hcalls h.keeps.held (by simp [Task.held]) hk
  | endRun h => exact hcalls h.kept.2 (fun _ hu => (h.tasks hu).2.1) hk

/-! ### Whole runs

The induction over a run is done once, with `WellFormed` beside the invariant, so that every user of
the rule gets the turn of each step and not only its function. -/

theorem Input.apply_steps (s : State P) (i : Input) (h : s.sched.running = false) :
    (∃ js, i = .activate js ∧ Changes s (i.apply s).2) ∨ Steps .callback s (i.apply s) := by
  cases i with
  | activate jobs => exact .inl ⟨jobs, rfl, .of_other s.memory s.started none⟩
  | setActivationIsReplaying b => exact .inr (.calm (.single (.setReplaying b)))
  | shutdown =>
    refine .inr (.shut (.shutdown s.terminal s.evicted s.taskFailure id id id fun hr => ?_))
    rw [h] at hr
    cases hr

/-- A well-formed configuration: the stack has the shape of an activation and
every task on it meets its guard, and continuations belong to handled frames. -/
structure Config.WellFormed (c : Config P) : Prop where
  shaped : Shaped c.store.sched.running c.stack
  guarded : ∀ t ∈ c.stack, t.Guard c.store
  handled : ∀ k, k ∈ c.store.sched.held ∨ (∃ t ∈ c.stack, k ∈ t.held) → k.frame.handled = true

namespace Config.WellFormed

variable {s : State P}

theorem running (h : Config.WellFormed (⟨[], s⟩ : Config P)) : s.sched.running = false := by
  obtain ⟨inner, outer, heq, -, houter⟩ := h.shaped
  rw [(List.append_eq_nil_iff.mp heq.symm).2] at houter
  exact houter.eq_false

theorem turn {t : Task P} {ts : List (Task P)} (h : Config.WellFormed (⟨t :: ts, s⟩ : Config P)) :
    State.Turn s t (s.step t) :=
  s.step_turn t (h.guarded t List.mem_cons_self) h.shaped.idle

theorem next {t : Task P} {ts : List (Task P)} (h : Config.WellFormed (⟨t :: ts, s⟩ : Config P)) :
    Config.WellFormed (⟨(s.step t).1 ++ ts, (s.step t).2⟩ : Config P) := by
  have hconts : ∀ k, k ∈ s.sched.held ∨ k ∈ t.held → k.frame.handled = true := fun k hk =>
    h.handled k (hk.imp_right fun hk => ⟨t, List.mem_cons_self, hk⟩)
  refine ⟨h.turn.shaped h.shaped hconts, fun t' ht' => ?_, fun k hk => ?_⟩
  · rcases List.mem_append.mp ht' with ht' | ht'
    · exact h.turn.guarded (h.guarded t List.mem_cons_self) t' ht'
    · exact (h.guarded t' (List.mem_cons_of_mem _ ht')).progress h.turn.progress
  · rcases hk with hk | ⟨u, hu, hk⟩
    · exact h.turn.handled hconts k (.inl hk)
    · rcases List.mem_append.mp hu with hu | hu
      · exact h.turn.handled hconts k (.inr ⟨u, hu, hk⟩)
      · exact h.handled k (.inr ⟨u, List.mem_cons_of_mem _ hu, hk⟩)

theorem input (h : Config.WellFormed (⟨[], s⟩ : Config P)) (i : Input) :
    Config.WellFormed (⟨(i.apply s).1, (i.apply s).2⟩ : Config P) := by
  rcases i.apply_steps s h.running with ⟨js, rfl, -⟩ | hsteps
  · refine ⟨?_, by simp [Input.apply, Task.Guard], fun k hk => h.handled k (.inl ?_)⟩
    · show Shaped s.sched.running _
      rw [h.running]
      exact (Outer.jobs _ _ _).shaped
    · exact hk.resolve_right (by simp [Input.apply, Task.held])
  · refine ⟨?_, fun t ht => (hsteps.tasks ht).2.2, fun k hk => ?_⟩
    · have := (Outer.none (P := P)).shaped.append _ fun t ht => (hsteps.tasks ht).1 nofun
      rwa [List.append_nil, ← h.running, ← hsteps.kept.1] at this
    · rcases hk with hk | ⟨t, ht, hk⟩
      · exact h.handled k (.inl (hsteps.kept.2 hk))
      · rw [(hsteps.tasks ht).2.1] at hk
        cases hk

end Config.WellFormed

namespace Reachable

variable {c : Config P}

theorem wellFormed (hc : Reachable P c) : c.WellFormed := by
  induction hc with
  | start =>
    refine ⟨Outer.none.shaped, by simp [State.start], fun k hk => ?_⟩
    simp [State.start, Scheduler.create, Scheduler.held, queuedConts] at hk
  | input i _ ih => exact ih.input i
  | @step c _ ih =>
    obtain ⟨stack, s⟩ := c
    cases stack with
    | nil => exact ih
    | cons t ts => exact ih.next

/-- **Invariant rule.** What holds of a new execution and is kept by the inputs
and by every turn holds in every configuration an execution passes through. -/
theorem induction {I : Config P → Prop} (hstart : I ⟨[], State.start P⟩)
    (hinput : ∀ (s : State P) (i : Input), Config.WellFormed (⟨[], s⟩ : Config P) → I ⟨[], s⟩ →
      I ⟨(i.apply s).1, (i.apply s).2⟩)
    (hturn : ∀ (s : State P) (t : Task P) (ts : List (Task P)),
      Config.WellFormed (⟨t :: ts, s⟩ : Config P) → I ⟨t :: ts, s⟩ →
        I ⟨(s.step t).1 ++ ts, (s.step t).2⟩)
    (hc : Reachable P c) : I c := by
  induction hc with
  | start => exact hstart
  | input i hc ih => exact hinput _ i hc.wellFormed ih
  | @step c hc ih =>
    obtain ⟨stack, s⟩ := c
    cases stack with
    | nil => exact ih
    | cons t ts => exact hturn s t ts hc.wellFormed ih

/-- The invariant rule for the state of an execution: it is enough that every primitive update keeps
the invariant, whatever the stack is. -/
theorem move_induction {I : State P → Prop} (hstart : I (State.start P))
    (hmove : ∀ s s', State.Move (fun _ => True) s s' → I s → I s') (hc : Reachable P c) :
    I c.store := by
  refine hc.induction (I := fun c => I c.store) hstart (fun s i hwf hs => ?_)
    fun s t ts hwf hs => invariant_of_changes hmove hwf.turn.moves.any hs
  rcases i.apply_steps s hwf.running with ⟨js, -, h⟩ | h
  · exact invariant_of_changes hmove h.moves hs
  · exact invariant_of_changes hmove h.moves hs

/-- The invariant rule for the scheduler alone, for properties of its queue and its futures. -/
theorem sched_induction {I : Scheduler P → Prop} (hstart : I Scheduler.create)
    (hstep : ∀ s s', Scheduler.Change s s' → I s → I s') (hc : Reachable P c) : I c.store.sched :=
  move_induction (I := fun s => I s.sched) hstart
    (fun _ _ h hs => invariant_of_changes hstep h.progress.sched hs) hc

/-- The invariant rule for the context alone, for properties of its tables and of its trace. -/
theorem ctx_induction {I : Context P → Prop} (hstart : I (Context.create P))
    (hstep : ∀ c c', Context.Change c c' → I c → I c') (hc : Reachable P c) : I c.store.ctx :=
  move_induction (I := fun s => I s.ctx) hstart
    (fun _ _ h hs => invariant_of_changes hstep h.progress.ctx hs) hc

end Reachable

theorem Logged.reachable {E : Type} {observe : State P → Task P → List E} {log : List E}
    {c : Config P} (h : Logged observe log c) : Reachable P c := by
  induction h with
  | start => exact .start
  | input i _ ih => exact ih.input i
  | step _ ih => exact ih.step

/-! ### Two points of a run

A statement about a later point of a run is proved from the updates in between. -/

namespace Runs

theorem reachable {c d : Config P} (h : Runs c d) (hc : Reachable P c) : Reachable P d := by
  induction h with
  | refl => exact hc
  | input i _ ih => exact ih.input i
  | step _ ih => exact ih.step

/-- What happens between two points of a run is a sequence of primitive updates. -/
theorem moves {c d : Config P} (h : Runs c d) (hc : Reachable P c) :
    Moves (fun _ => True) c.store d.store := by
  induction h with
  | refl => exact .refl
  | @input s i hrun ih =>
    rcases i.apply_steps s (hrun.reachable hc).wellFormed.running with ⟨js, -, h⟩ | h
    · exact ih.trans h.moves
    · exact ih.trans h.moves
  | @step d hrun ih =>
    obtain ⟨stack, s⟩ := d
    cases stack with
    | nil => exact ih
    | cons t ts => exact ih.trans (hrun.reachable hc).wellFormed.turn.moves.any

end Runs

end OcamlTemporal
