import OcamlTemporal.Runtime.Progress
import OcamlTemporal.Runtime.Script

/-!
# OcamlTemporal.Sound.Terminal

**A run ends once.** The terminal command of a run comes from the root's result,
from a cancellation job, from continue-as-new or from an error, and user code
keeps running after it: cleanup handlers of unwound fibers, catch-alls around the
terminal operation, queries on the closed run. Whatever they do, the commands
returned over all activations hold at most one terminal command, and only query
results after it.

The invariant is about the commands returned so far followed by those still in
the buffer: a terminal one among them means that the context is sealed, and a
sealed context takes query results only.
-/

namespace OcamlTemporal

variable {P : Program}

namespace Context

/-- Every command returned or buffered so far, oldest first. -/
def history (c : Context P) : List Command := c.outputs.flatten ++ c.commandsRev.reverse

def MayFollow (earlier later : Command) : Prop :=
  earlier.isTerminal = true → later.isQueryResult = true

/-- The history ends with the terminal command, queries apart. -/
structure EndsOnce (c : Context P) : Prop where
  sealed : ∀ t ∈ c.history, t.isTerminal = true → c.isSealed = true
  ordered : c.history.Pairwise MayFollow

/-- What an update of the context does to its history: it shortens it, leaves it
as it is, or appends a command the seal admits. -/
structure Extends (c c' : Context P) : Prop where
  sealed : c.isSealed = true → c'.isSealed = true
  commands : c'.history <+: c.history ∨
    ∃ command, c.takes command = true ∧ c'.history = c.history ++ [command] ∧
      (command.isTerminal = true → c'.isSealed = true)

variable {c c' : Context P}

theorem Extends.of_eq (hseal : c.isSealed = true → c'.isSealed = true)
    (hrev : c'.commandsRev = c.commandsRev) (hout : c'.outputs = c.outputs) : Extends c c' := by
  have hhistory : c'.history = c.history := by rw [history, history, hrev, hout]
  exact ⟨hseal, .inl (hhistory ▸ List.prefix_rfl)⟩

theorem Extends.of_emit (command : Command) (hseal : c.isSealed = true → c'.isSealed = true)
    (hterm : command.isTerminal = true → c'.isSealed = true)
    (hrev : c'.commandsRev = if c.takes command then command :: c.commandsRev else c.commandsRev)
    (hout : c'.outputs = c.outputs) : Extends c c' := by
  by_cases htake : c.takes command = true
  · refine ⟨hseal, .inr ⟨command, htake, ?_, hterm⟩⟩
    rw [if_pos htake] at hrev
    simp [history, hrev, hout]
  · rw [if_neg htake] at hrev
    exact .of_eq hseal hrev hout

theorem Extends.of_plain (command : Command) (h : command.isTerminal = false)
    (hseal : c'.isSealed = c.isSealed)
    (hrev : c'.commandsRev = if c.takes command then command :: c.commandsRev else c.commandsRev)
    (hout : c'.outputs = c.outputs) : Extends c c' :=
  .of_emit command (fun hs => hseal.trans hs) (fun ht => by rw [h] at ht; cases ht) hrev hout

/-- Leaving a retry phase buffers at most the cancellation of its timer. -/
theorem leaveBackoff_extends (c : Context P) (seq : Nat) (la : LocalActivity) :
    Extends c (c.leaveBackoff seq la) := by
  unfold leaveBackoff
  cases la.backoff with
  | timer timerSeq => exact .of_plain (.cancelTimer timerSeq) rfl rfl rfl rfl
  | idle | timerQueued | retryQueued => exact .of_eq id rfl rfl

theorem Patch.extends (h : Patch c c') : Extends c c' := by
  obtain ⟨patches, markers, rfl, hmarkers⟩ := h.frame
  rcases hmarkers with rfl | ⟨hsealed, patchId, deprecated, rfl⟩
  · exact .of_eq id rfl rfl
  · refine .of_plain (.setPatchMarker patchId deprecated) rfl rfl ?_ rfl
    simp [takes, hsealed]

theorem isTerminal_of_isPlain {command : Command} (h : command.isPlain = true) :
    command.isTerminal = false := by
  cases command <;> simp_all [Command.isPlain, Command.isTerminal]

theorem isTerminal_of_isExternal {command : Command} (h : command.isExternal = true) :
    command.isTerminal = false := by
  cases command <;> simp_all [Command.isExternal, Command.isTerminal]

/-- What operations and jobs buffer is not terminal. -/
theorem Act.extends (h : Act c c') : Extends c c' := by
  cases h with
  | startTimer f ms => exact .of_plain (.startTimer (c.nextSequence + 1) ms) rfl rfl rfl rfl
  | scheduleActivity f decode r =>
    exact .of_plain (.scheduleActivity (c.nextSequence + 1) r) rfl rfl rfl rfl
  | scheduleLocalActivity f decode r =>
    exact .of_plain (.scheduleLocalActivity (c.nextSequence + 1) 1 none r) rfl rfl rfl rfl
  | startChild f started decode r =>
    exact .of_plain (.startChildWorkflow (c.nextSequence + 1) r) rfl rfl rfl rfl
  | startExternal operation f command h =>
    exact .of_plain command (isTerminal_of_isExternal h) rfl rfl rfl
  | @cancelTimer seq => exact .of_plain (.cancelTimer seq) rfl rfl rfl rfl
  | @requestCancel seq handle =>
    refine .of_plain (if handle.isLocal then .requestCancelLocalActivity seq
      else .requestCancelActivity seq) ?_ rfl rfl rfl
    split <;> rfl
  | @cancelBackoff seq handle la =>
    have h := (c.markCancelled seq handle).leaveBackoff_extends seq la
    exact ⟨h.sealed, h.commands⟩
  | @leaveBackoff seq la => exact c.leaveBackoff_extends seq la
  | @cancelChild seq reason handle =>
    exact .of_plain (.cancelChildWorkflow seq reason) rfl rfl rfl rfl
  | emit command h => exact .of_plain command (isTerminal_of_isPlain h) rfl rfl rfl
  | _ => exact .of_eq id rfl rfl

/-- Every update of the context extends its history as the seal allows. -/
theorem Change.extends (h : Change c c') : Extends c c' := by
  cases h with
  | act h => exact h.extends
  | patch h => exact h.extends
  | retry h =>
    cases h with
    | acceptBackoff | fireBackoff => exact .of_eq id rfl rfl
    | startBackoffTimer _ ms => exact .of_plain (.startTimer _ ms) rfl rfl rfl rfl
    | retryLocalActivity attempt time =>
      exact .of_plain (.scheduleLocalActivity _ attempt time _) rfl rfl rfl rfl
  | respond id response => exact .of_plain (.updateResponse id response) rfl rfl rfl rfl
  | terminate command h => exact .of_emit command (fun _ => rfl) (fun _ => rfl) rfl rfl
  | emitTerminal command h => exact .of_emit command (fun _ => rfl) (fun _ => rfl) rfl rfl
  | takeCommands => exact ⟨id, .inl (by simp [history, Context.takeCommands])⟩
  | discardCommands => exact ⟨id, .inl (by simp [history, Context.discardCommands])⟩
  | returnNothing => exact ⟨id, .inl (by simp [history])⟩
  | close => exact .of_eq (fun _ => rfl) rfl rfl
  | updateBody | setReplaying | clearTables => exact .of_eq id rfl rfl

/-- The seal keeps the history closed after its terminal command. -/
theorem EndsOnce.extends (hc : EndsOnce c) (h : Extends c c') : EndsOnce c' := by
  rcases h.commands with hpre | ⟨command, htake, heq, hterm⟩
  · exact ⟨fun t ht hterm => h.sealed (hc.sealed t (hpre.subset ht) hterm),
      hc.ordered.sublist hpre.sublist⟩
  · refine ⟨fun t ht hterm' => ?_, ?_⟩
    · rw [heq] at ht
      rcases List.mem_append.mp ht with ht | ht
      · exact h.sealed (hc.sealed t ht hterm')
      · exact hterm (List.mem_singleton.mp ht ▸ hterm')
    · rw [heq, List.pairwise_append]
      refine ⟨hc.ordered, List.pairwise_singleton _ _, fun t ht q hq hterm' => ?_⟩
      -- A terminal command before it has sealed the context.
      rw [List.mem_singleton.mp hq]
      have hsealed := hc.sealed t ht hterm'
      simpa [takes, hsealed] using htake

end Context

/-- A terminal command and its successors, with nothing but query results
between them, occur at most once in a list. -/
theorem countP_isTerminal_le_one {commands : List Command}
    (h : commands.Pairwise Context.MayFollow) : commands.countP Command.isTerminal ≤ 1 := by
  induction commands with
  | nil => simp
  | cons command rest ih =>
    obtain ⟨hhead, htail⟩ := List.pairwise_cons.mp h
    by_cases hterm : command.isTerminal = true
    · -- The rest are query results.
      have hrest : rest.countP Command.isTerminal = 0 := by
        refine List.countP_eq_zero.mpr fun q hq ht => ?_
        have hquery := hhead q hq hterm
        rw [Command.not_isQueryResult_of_isTerminal ht] at hquery
        cases hquery
      simp [List.countP_cons_of_pos hterm, hrest]
    · rw [List.countP_cons_of_neg hterm]
      exact ih htail

theorem Reachable.endsOnce {c : Config P} (hc : Reachable P c) : c.store.ctx.EndsOnce :=
  hc.ctx_induction ⟨by simp [Context.history, Context.create],
    by simp [Context.history, Context.create]⟩ fun _ _ h hinv => hinv.extends h.extends

/-- **A run ends once.** Over every sequence of activations the returned commands
hold at most one terminal command, and every command after it is a query
result. -/
theorem run_ends_once {c : Config P} (hc : Reachable P c) :
    c.store.ctx.outputs.flatten.countP Command.isTerminal ≤ 1 ∧
    ∀ earlier t later, c.store.ctx.outputs.flatten = earlier ++ t :: later →
      t.isTerminal = true → ∀ q ∈ later, q.isQueryResult = true := by
  have hordered : c.store.ctx.outputs.flatten.Pairwise Context.MayFollow :=
    hc.endsOnce.ordered.sublist (List.sublist_append_left _ _)
  refine ⟨countP_isTerminal_le_one hordered, fun earlier t later heq ht q hq => ?_⟩
  rw [heq] at hordered
  exact (List.pairwise_cons.mp (List.pairwise_append.mp hordered).2.1).1 q hq ht

def sleeper : Program :=
  Script.program (.withFuture (.startTimer 5) fun f => .then_ (.await f) .done)
    Script.unregistered (fun _ => some .done) Script.unregistered

/-- The sleeper after it was started, cancelled and then queried. -/
def cancelledSleeper : State sleeper :=
  replayed sleeper 20 [.activate [.startWorkflow], .activate [.cancelWorkflow],
    .activate [.queryWorkflow "q" "state" [] []]] (by decide +kernel)

theorem reachable_cancelledSleeper : Reachable sleeper ⟨[], cancelledSleeper⟩ :=
  reachable_replayed _

theorem run_ends_once_cancelledSleeper :
    cancelledSleeper.ctx.outputs = [[.startTimer 1 5], [.cancelWorkflowExecution],
      [.queryResult "q" (.ok .unitNull)]] ∧
    cancelledSleeper.ctx.outputs.flatten.countP Command.isTerminal ≤ 1 ∧
    ∀ earlier t later, cancelledSleeper.ctx.outputs.flatten = earlier ++ t :: later →
      t.isTerminal = true → ∀ q ∈ later, q.isQueryResult = true :=
  ⟨by decide +kernel, run_ends_once reachable_cancelledSleeper⟩

end OcamlTemporal
