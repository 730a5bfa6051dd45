import Mathlib.Data.List.Nodup
import OcamlTemporal.Runtime.Conditions

/-!
# OcamlTemporal.Sound.Conditions

Condition waits under every program and every order of firings.

* A bounded wait decides by an evaluation of its predicate in the step in which it returns, and
  cancels its scope there: `finish_went` is the step lemma for its timer.
* The idle check is the last thing of a drain: `DrainOk`.
* An unbounded wait does not read its predicate again, so that a fiber resumed before it may have
  made it false.
-/

namespace OcamlTemporal.Conditions

variable {M : Type}

open Conditions.State

/-! ## Timers

A timer settles once, by firing or by a cancellation with one command, and while its wait is under
way the hook that cancels it is in the scope of that wait. Sealing a context empties its table
without settling anything, which is why several facts are about open contexts only. -/

/-- The table of timers, the states of their futures, the buffered commands and the scopes of the
waits agree. A timer belongs to at most one wait. -/
structure TimersOk (s : State M) : Prop where
  table : ∀ seq ∈ s.timers, s.timerState seq = some .pending
  pending : s.isSealed = false → ∀ seq, s.timerState seq = some .pending → seq ∈ s.timers
  fresh : ∀ seq, s.nextSequence < seq → s.timerState seq = none
  commands : ∀ seq, s.commands.count (.cancelTimer seq) =
    if s.timerState seq = some .cancelled then 1 else 0
  unused : ∀ w, s.count ≤ w → s.waits w = none
  owner : ∀ w wait seq, s.waits w = some wait → wait.bound = .timer seq →
    s.timerWait seq = some w ∧ s.timerState seq ≠ none
  owned : ∀ seq w, s.timerWait seq = some w → ∃ wait, s.waits w = some wait ∧
    wait.bound = .timer seq ∧ seq ≤ s.nextSequence
  hook : s.isSealed = false → ∀ w wait seq, s.waits w = some wait → wait.bound = .timer seq →
    s.timerState seq = some .pending → s.scope w = ⟨false, true⟩
  observer : ∀ w, .detach w ∈ s.queue → ∃ wait, s.waits w = some wait ∧
    ∀ seq, wait.bound = .timer seq → s.timerState seq ≠ some .pending
  returned : ∀ r ∈ s.returns, r.isSealed = false → ∀ wait seq, s.waits r.wait = some wait →
    wait.bound = .timer seq → s.timerState seq ≠ some .pending

theorem timersOk_init (mem : M) : TimersOk (State.init mem) where
  table _ h := by cases h
  pending _ _ h := by cases h
  fresh _ _ := rfl
  commands _ := rfl
  unused _ _ := rfl
  owner _ _ _ h := by cases h
  owned _ _ h := by cases h
  hook _ _ _ _ h := by cases h
  observer _ h := by cases h
  returned _ h := by cases h

variable {s s' : State M} {seq w : Nat} {kept : Prop} {outcome : Outcome} {seen : M}
  {result : Except Error Unit} {queue : List Thunk} {label : Label M}

/-- A pending timer is settled: it leaves the table, with the command if it is cancelled. -/
theorem TimersOk.settleTimer (h : TimersOk s) (hseq : seq ∈ s.timers) {state : TimerState}
    (hstate : state ≠ .pending) {commands : List Command}
    (hcommands : ∀ seq', commands.count (.cancelTimer seq') = s.commands.count (.cancelTimer seq') +
      if seq' = seq ∧ state = .cancelled then 1 else 0) :
    TimersOk { s with
      timers := s.timers.filter (· ≠ seq)
      timerState := Function.update s.timerState seq (some state)
      commands } := by
  have hpending := h.table seq hseq
  obtain ⟨htable, hpend, hfresh, hcommand, hunused, howner, howned, hhook, hobserver,
    hreturned⟩ := h
  constructor <;> simp only [Function.update_apply, List.mem_filter, decide_eq_true_eq]
  all_goals grind

theorem count_cancelTimer_append (commands : List Command) (command : Command) (seq : Nat) :
    (commands ++ [command]).count (.cancelTimer seq) =
      commands.count (.cancelTimer seq) + if command = .cancelTimer seq then 1 else 0 := by
  rw [List.count_append, List.count_singleton]
  simp only [beq_iff_eq]

theorem TimersOk.cancelTimer (h : TimersOk s) (seq : Nat) : TimersOk (s.cancelTimer seq) := by
  rw [State.cancelTimer]
  split
  · exact h
  next hsealed =>
    split
    next hmem =>
      rw [State.emit, if_neg hsealed]
      refine h.settleTimer hmem (show TimerState.cancelled ≠ .pending by decide) fun seq' => ?_
      dsimp only
      rw [count_cancelTimer_append]
      simp [eq_comm]
    · exact h

theorem cancelTimer_settled (h : TimersOk s) (seq : Nat) (hsealed : s.isSealed = false) :
    (s.cancelTimer seq).timerState seq ≠ some .pending := by
  rw [State.cancelTimer, if_neg (by rw [hsealed]; exact Bool.false_ne_true)]
  split
  · rw [State.emit, if_neg (by dsimp only; rw [hsealed]; exact Bool.false_ne_true)]
    dsimp only
    rw [Function.update_self]
    exact nofun
  next hmem => exact fun hpending => hmem (h.pending hsealed seq hpending)

theorem cancelTimer_eq (s : State M) (seq : Nat) : ∃ timers timerState commands,
    s.cancelTimer seq = { s with timers, timerState, commands } := by
  rw [State.cancelTimer]
  split
  · exact ⟨_, _, _, rfl⟩
  next hsealed =>
    rw [State.emit, if_neg hsealed]
    split <;> exact ⟨_, _, _, rfl⟩

theorem cancelTimer_fired (h : TimersOk s) (seq seq' : Nat)
    (hfired : s.timerState seq' = some .fired) :
    (s.cancelTimer seq).timerState seq' = some .fired := by
  rw [State.cancelTimer]
  split
  · exact hfired
  next hsealed =>
    split
    next hmem =>
      rw [State.emit, if_neg hsealed]
      have hne : seq' ≠ seq := by
        rintro rfl
        rw [h.table _ hmem] at hfired
        cases hfired
      exact (Function.update_of_ne hne _ _).trans hfired
    · exact hfired

/-! ## The end of a wait

`wait_with_timeout` cancels its scope however it ends. What is used of `Scope.cancel` later is
`cancelScope_spec` alone. -/

/-- The scope of a wait is changed; the hook is not lost while the timer is pending. -/
theorem TimersOk.setScope (h : TimersOk s) {scope : Scope}
    (hscope : s.isSealed = false → ∀ wait seq, s.waits w = some wait → wait.bound = .timer seq →
      s.timerState seq = some .pending → scope = ⟨false, true⟩) :
    TimersOk (s.setScope w scope) :=
  { h with
    hook := by
      intro hsealed w' wait seq hw hb hpending
      by_cases hsame : w' = w
      · subst hsame
        exact (Function.update_self ..).trans (hscope hsealed wait seq hw hb hpending)
      · exact (Function.update_of_ne hsame ..).trans (h.hook hsealed w' wait seq hw hb hpending) }

/-- What `Scope.cancel` does for a wait in its owner's turn. -/
structure ScopeCancelled (s : State M) (bound : Bound) (r : Except Error Unit × State M) :
    Prop where
  ok : r.1 = .ok ()
  timers : TimersOk r.2
  settled : s.isSealed = false → ∀ seq, bound = .timer seq → r.2.timerState seq ≠ some .pending
  fired : ∀ seq, s.timerState seq = some .fired → r.2.timerState seq = some .fired
  around : ∃ timers timerState commands scope, r.2 = { s with timers, timerState, commands, scope }

theorem setScope_cancelTimer (s : State M) (w seq : Nat) (scope : Scope) :
    (s.setScope w scope).cancelTimer seq = (s.cancelTimer seq).setScope w scope := by
  by_cases hsealed : s.isSealed = true
  · simp [State.cancelTimer, State.setScope, hsealed]
  · by_cases hmem : seq ∈ s.timers <;>
      simp [State.cancelTimer, State.setScope, State.emit, hsealed, hmem]

/-- While the context is open, a scope without its hook has no pending timer. -/
theorem TimersOk.settled_of_scope (h : TimersOk s) (hsealed : s.isSealed = false)
    (hscope : s.scope w ≠ ⟨false, true⟩) {wait : Wait M} (hw : s.waits w = some wait)
    (hb : wait.bound = .timer seq) : s.timerState seq ≠ some .pending :=
  fun hpending => hscope (h.hook hsealed w wait seq hw hb hpending)

theorem cancelScope_spec (h : TimersOk s) (hlive : s.live = true) {wait : Wait M}
    (hw : s.waits w = some wait) : ScopeCancelled s wait.bound (s.cancelScope w wait.bound) := by
  -- the scope is closed in a state in which the timer of the wait is not pending
  have hclose : (∀ seq, s.isSealed = false → wait.bound = .timer seq →
      s.timerState seq ≠ some .pending) →
      ScopeCancelled s wait.bound (.ok (), s.setScope w ⟨true, false⟩) := by
    intro hsettled
    refine ⟨rfl, h.setScope ?_, fun hsealed seq => hsettled seq hsealed, fun _ => id,
      _, _, _, _, rfl⟩
    intro hsealed wait' seq hw' hb hpending
    obtain rfl := Option.some.inj (hw.symm.trans hw')
    exact absurd hpending (hsettled seq hsealed hb)
  rw [State.cancelScope, if_pos hlive]
  dsimp only
  split
  next hcancelled =>
    refine ⟨rfl, h, fun hsealed seq hb => ?_, fun _ => id, _, _, _, _, rfl⟩
    refine h.settled_of_scope hsealed (fun hscope => ?_) hw hb
    rw [hscope] at hcancelled
    cases hcancelled
  · split
    next seq hb =>
      split
      · -- the hook runs: the timer is cancelled
        have hsettled := cancelTimer_settled h seq
        have hfired := cancelTimer_fired h seq
        have htimers := h.cancelTimer seq
        rw [setScope_cancelTimer]
        obtain ⟨timers, timerState, commands, heq⟩ := cancelTimer_eq s seq
        rw [heq] at hsettled hfired htimers ⊢
        refine ⟨rfl, htimers.setScope ?_, ?_, hfired, _, _, _, _, rfl⟩
        · intro hsealed wait' seq' hw' hb' hpending
          obtain rfl := Option.some.inj (hw.symm.trans hw')
          obtain rfl := Bound.timer.inj (hb.symm.trans hb')
          exact absurd hpending (hsettled hsealed)
        · intro hsealed seq' hb'
          obtain rfl := Bound.timer.inj (hb.symm.trans hb')
          exact hsettled hsealed
      next hskip =>
        refine hclose fun seq' hsealed hb' hpending => ?_
        obtain rfl := Bound.timer.inj (hb.symm.trans hb')
        rw [h.hook hsealed w wait seq hw hb hpending] at hskip
        simp [timerReady, State.setScope, hpending] at hskip
    next hb => exact hclose fun seq _ hbound => absurd hbound (hb seq)

/-! ## What the returned waits were told

A return is recorded with the memory of that moment, so that it can be compared with the predicate
at any later point of the run. -/

/-- What later states keep of a wait: its record, and that its bound elapsed. -/
def Later (s s' : State M) : Prop :=
  (∀ w wait, s.waits w = some wait → s'.waits w = some wait) ∧
    ∀ seq, s.timerState seq = some .fired → s'.timerState seq = some .fired

theorem Later.refl (s : State M) : Later s s := ⟨fun _ _ => id, fun _ => id⟩

theorem Later.trans {s'' : State M} (h : Later s s') (h' : Later s' s'') : Later s s'' :=
  ⟨fun w wait hw => h'.1 w wait (h.1 w wait hw), fun seq hseq => h'.2 seq (h.2 seq hseq)⟩

theorem Later.waits (h : Later s s') {wait : Wait M} (hw : s.waits w = some wait) :
    s'.waits w = some wait := h.1 w wait hw

theorem Later.fired (h : Later s s') {bound : Bound} (hfired : s.fired bound = true) :
    s'.fired bound = true := by
  cases bound with
  | timer seq => exact decide_eq_true (h.2 seq (of_decide_eq_true hfired))
  | elapsed => rfl
  | unbounded => cases hfired
  | unstarted => cases hfired

/-- The outcome of a wait agrees with its predicate and its bound. For a wait without a bound that
takes that the run kept the predicates of settled waits true. -/
structure Told (kept : Prop) (fired : Bool) (wait : Wait M) (outcome : Outcome) (seen : M) :
    Prop where
  ok : outcome = .ok → (wait.bound = .unbounded → kept) →
    (wait.predicate seen).verdict = .holds true
  timedOut : outcome = .timedOut →
    (wait.predicate seen).verdict = .holds false ∧ fired = true

theorem told_error (kept : Prop) (fired : Bool) (wait : Wait M) (e : Error) (seen : M) :
    Told kept fired wait (.error e) seen := ⟨nofun, nofun⟩

def ReturnsOk (kept : Prop) (s : State M) : Prop :=
  ∀ r ∈ s.returns, ∃ wait, s.waits r.wait = some wait ∧
    Told kept (s.fired wait.bound) wait r.outcome r.seen

theorem ReturnsOk.later (h : ReturnsOk kept s) (hlater : Later s s')
    (hreturns : s'.returns = s.returns) : ReturnsOk kept s' := by
  intro r hr
  rw [hreturns] at hr
  obtain ⟨wait, hw, hok, htimedOut⟩ := h r hr
  exact ⟨wait, hlater.waits hw, hok, fun h => ⟨(htimedOut h).1, hlater.fired (htimedOut h).2⟩⟩

theorem TimersOk.addReturn (h : TimersOk s) {wait : Wait M} (hw : s.waits w = some wait)
    (hsettled : s.isSealed = false → ∀ seq, wait.bound = .timer seq →
      s.timerState seq ≠ some .pending) : TimersOk (s.returned w wait outcome seen) :=
  { h with
    returned := by
      intro r hr hsealed wait' seq hw' hb
      rcases List.mem_cons.mp hr with hnew | hold
      · subst hnew
        obtain rfl := Option.some.inj (hw.symm.trans hw')
        exact hsettled hsealed seq hb
      · exact h.returned r hold hsealed wait' seq hw' hb }

theorem ReturnsOk.addReturn (h : ReturnsOk kept s) {wait : Wait M} (hw : s.waits w = some wait)
    (htold : Told kept (s.fired wait.bound) wait outcome seen) :
    ReturnsOk kept (s.returned w wait outcome seen) := by
  intro r hr
  rcases List.mem_cons.mp hr with hnew | hold
  · subst hnew
    exact ⟨wait, hw, htold⟩
  · exact h r hold

/-! ## Where a wait is

A wait that has not returned is being evaluated, in the store or in the run queue. Counting the
places bounds the returns. -/

def resumes (queue : List Thunk) (w : Nat) : Nat :=
  queue.countP fun
    | .resume w' _ => w' = w
    | _ => false

/-- How often a wait is in the store, queued or returned. -/
def held (s : State M) (w : Nat) : Nat :=
  s.waiters.count w + resumes s.queue w + s.returns.countP (·.wait = w)

def places (s : State M) (w : Nat) : Nat := (if s.turn = .evaluating w then 1 else 0) + held s w

theorem held_le_places (s : State M) (w : Nat) : held s w ≤ places s w := Nat.le_add_left ..

theorem places_eq (h : s.turn ≠ .evaluating w) : places s w = held s w := by
  rw [places, if_neg h, Nat.zero_add]

theorem resumes_append_code (queue : List Thunk) (callers : List (Option Nat)) (w : Nat) :
    resumes (queue ++ callers.map .code) w = resumes queue w := by
  have hcode : resumes (callers.map .code) w = 0 := by
    refine List.countP_eq_zero.mpr fun thunk hthunk => ?_
    obtain ⟨caller, -, rfl⟩ := List.mem_map.mp hthunk
    exact Bool.false_ne_true
  rw [resumes, List.countP_append]
  exact congrArg _ hcode

/-! ## Code

Between two suspensions code can do anything that its `Action`s allow. Predicates are code too and
are run by the idle check, so the step lemma for actions is used for both. -/

/-- The drain ended with nothing that keeps the idle check from running. -/
def Clean (s : State M) : Prop :=
  s.running = false ∧ s.active = true ∧ s.abortRequested = false ∧ s.failed = false ∧
    s.terminal = false

/-- What the actions of code keep, in a predicate or not. -/
structure Acts (s s' : State M) : Prop where
  timers : TimersOk s'
  later : Later s s'
  running : s'.running = s.running
  active : s'.active = s.active
  turn : s'.turn = s.turn
  waiters : s'.waiters = s.waiters
  waits : s'.waits = s.waits
  returns : s'.returns = s.returns
  checked : s'.checked = s.checked
  clean : Clean s' → Clean s
  count : s'.count = s.count
  queue : ∃ callers : List (Option Nat), s'.queue = s.queue ++ callers.map .code

theorem Acts.refl (h : TimersOk s) : Acts s s :=
  ⟨h, .refl s, rfl, rfl, rfl, rfl, rfl, rfl, rfl, id, rfl, [], (List.append_nil _).symm⟩

theorem Acts.trans {s'' : State M} (h : Acts s s') (h' : Acts s' s'') : Acts s s'' := by
  obtain ⟨callers, hqueue⟩ := h.queue
  obtain ⟨callers', hqueue'⟩ := h'.queue
  refine ⟨h'.timers, h.later.trans h'.later, h'.running.trans h.running, h'.active.trans h.active,
    h'.turn.trans h.turn, h'.waiters.trans h.waiters, h'.waits.trans h.waits,
    h'.returns.trans h.returns, h'.checked.trans h.checked, fun hclean => h.clean (h'.clean hclean),
    h'.count.trans h.count, callers ++ callers', ?_⟩
  rw [hqueue', hqueue, List.map_append, List.append_assoc]

theorem Acts.live (h : Acts s s') : s'.live = s.live := by
  rw [State.live, State.live, h.running, h.active]

theorem Acts.resume (h : Acts s s') (hmem : .resume w result ∈ s'.queue) :
    .resume w result ∈ s.queue := by
  obtain ⟨callers, hqueue⟩ := h.queue
  rw [hqueue] at hmem
  rcases List.mem_append.mp hmem with hold | hnew
  · exact hold
  · obtain ⟨caller, -, heq⟩ := List.mem_map.mp hnew
    cases heq

theorem Acts.held_eq (h : Acts s s') (w : Nat) : held s' w = held s w := by
  obtain ⟨callers, hqueue⟩ := h.queue
  rw [held, held, h.waiters, hqueue, h.returns, resumes_append_code]

theorem mem_detach_append {callers : List (Option Nat)}
    (h : .detach w ∈ queue ++ callers.map .code) :
    .detach w ∈ queue := by
  rcases List.mem_append.mp h with hold | hnew
  · exact hold
  · obtain ⟨caller, -, heq⟩ := List.mem_map.mp hnew
    cases heq

theorem acts_mem (h : TimersOk s) (mem : M) : Acts s { s with mem } :=
  ⟨{ h with },
    .refl _, rfl, rfl, rfl, rfl, rfl, rfl, rfl, id, rfl, [],
    (List.append_nil _).symm⟩

theorem acts_enqueue (h : TimersOk s) (caller : Option Nat) :
    Acts s (s.enqueue (.code caller)) := by
  rw [State.enqueue]
  split
  · refine ⟨{ h with observer := fun w hw => h.observer w ?_ }, .refl _, rfl, rfl, rfl, rfl, rfl,
      rfl, rfl, id, rfl, [caller], rfl⟩
    exact mem_detach_append (show _ ∈ s.queue ++ [caller].map .code from hw)
  · exact .refl h

theorem acts_enqueueAll (h : TimersOk s) (callers : List (Option Nat)) :
    Acts s (callers.foldl (fun s caller => s.enqueue (.code caller)) s) := by
  induction callers generalizing s with
  | nil => exact .refl h
  | cons caller callers ih =>
    have hfirst := acts_enqueue h caller
    exact hfirst.trans (ih hfirst.timers)

theorem emit_eq (s : State M) {command : Command} (hcommand : ∀ seq, command ≠ .cancelTimer seq) :
    ∃ commands, s.emit command = { s with commands } ∧
      ∀ seq, commands.count (.cancelTimer seq) = s.commands.count (.cancelTimer seq) := by
  rw [State.emit]
  split
  · exact ⟨s.commands, rfl, fun _ => rfl⟩
  · refine ⟨_, rfl, fun seq => ?_⟩
    rw [count_cancelTimer_append, if_neg (hcommand seq)]
    rfl

theorem startTimer_eq (s : State M) (milliseconds : Nat) (owner : Option Nat) :
    ∃ commands, s.startTimer milliseconds owner = { s with
        nextSequence := s.nextSequence + 1
        timers := s.timers ++ [s.nextSequence + 1]
        timerState := Function.update s.timerState (s.nextSequence + 1) (some .pending)
        timerWait := Function.update s.timerWait (s.nextSequence + 1) owner
        commands } ∧
      ∀ seq, commands.count (.cancelTimer seq) = s.commands.count (.cancelTimer seq) :=
  emit_eq { s with
    nextSequence := s.nextSequence + 1
    timers := s.timers ++ [s.nextSequence + 1]
    timerState := Function.update s.timerState (s.nextSequence + 1) (some .pending)
    timerWait := Function.update s.timerWait (s.nextSequence + 1) owner } nofun

theorem startTimer_fired (h : TimersOk s) (hfired : s.timerState seq = some .fired) :
    Function.update s.timerState (s.nextSequence + 1) (some .pending) seq = some .fired := by
  have hne : seq ≠ s.nextSequence + 1 := by
    rintro rfl
    rw [h.fresh _ (Nat.lt_succ_self _)] at hfired
    cases hfired
  exact (Function.update_of_ne hne ..).trans hfired

/-- A timer is started that belongs to no wait: its number is fresh. -/
theorem TimersOk.startTimer (h : TimersOk s) (milliseconds : Nat) :
    TimersOk (s.startTimer milliseconds none) := by
  have hnew : s.timerState (s.nextSequence + 1) = none := h.fresh _ (Nat.lt_succ_self _)
  obtain ⟨commands, hstart, hcount⟩ := startTimer_eq s milliseconds none
  obtain ⟨htable, hpend, hfresh, hcommand, hunused, howner, howned, hhook, hobserver,
    hreturned⟩ := h
  rw [hstart]
  constructor <;> simp only [Function.update_apply, List.mem_append, List.mem_singleton]
  all_goals grind

theorem acts_startTimer (h : TimersOk s) (milliseconds : Nat) :
    Acts s (s.startTimer milliseconds none) := by
  have htimers := h.startTimer milliseconds
  obtain ⟨commands, hstart, -⟩ := startTimer_eq s milliseconds none
  rw [hstart] at htimers ⊢
  exact ⟨htimers, ⟨fun _ _ => id, fun _ => startTimer_fired h⟩, rfl, rfl, rfl, rfl, rfl, rfl, rfl,
    id, rfl, [], (List.append_nil _).symm⟩

theorem acts_cancelTimer (h : TimersOk s) (seq : Nat) : Acts s (s.cancelTimer seq) := by
  have htimers := h.cancelTimer seq
  have hfired := cancelTimer_fired h seq
  obtain ⟨timers, timerState, commands, heq⟩ := cancelTimer_eq s seq
  rw [heq] at htimers hfired ⊢
  exact ⟨htimers, ⟨fun _ _ => id, hfired⟩, rfl, rfl, rfl, rfl, rfl, rfl, rfl, id, rfl, [],
    (List.append_nil _).symm⟩

theorem acts_continueAsNew (h : TimersOk s) (caller : Option Nat) :
    Acts s (s.continueAsNew caller) := by
  obtain ⟨commands, hemit, hcount⟩ :=
    emit_eq s (show ∀ seq, Command.terminal ≠ .cancelTimer seq from nofun)
  have hcommands := fun seq => (hcount seq).trans (h.commands seq)
  rw [State.continueAsNew.eq_def, hemit]
  cases caller with
  | none =>
    refine ⟨{ h with pending := nofun, hook := nofun, commands := hcommands }, .refl _, rfl, rfl,
      rfl, rfl, rfl, rfl, rfl, fun hclean => ?_, rfl, [], (List.append_nil _).symm⟩
    obtain ⟨hrunning, hactive, habort, hfailed, hterminal⟩ := hclean
    exact ⟨hrunning, hactive, habort, hfailed, (Bool.or_eq_false_iff.mp hterminal).1⟩
  | some fiber =>
    exact ⟨{ h with pending := nofun, hook := nofun, commands := hcommands }, .refl _, rfl, rfl,
      rfl, rfl, rfl, rfl, rfl, fun hclean => (nomatch hclean.2.2.1), rfl, [],
      (List.append_nil _).symm⟩

/-- The step lemma for code, one case per action. None of them touches the store, the queued fibers
or what has returned. -/
theorem act_acts (h : TimersOk s) (caller : Option Nat) (action : Action) :
    Acts s (s.act caller action) := by
  cases action with
  | enqueue callers => exact acts_enqueueAll h callers
  | startTimer milliseconds =>
    rw [State.act]
    split
    · exact acts_startTimer h milliseconds
    · exact .refl h
  | cancelTimer seq =>
    rw [State.act]
    split
    · exact acts_cancelTimer h seq
    · exact .refl h
  | continueAsNew => exact acts_continueAsNew h caller

theorem actAll_acts (h : TimersOk s) (caller : Option Nat) (actions : List Action) :
    Acts s (s.actAll caller actions) := by
  induction actions generalizing s with
  | nil => exact .refl h
  | cons action actions ih =>
    have hfirst := act_acts h caller action
    exact hfirst.trans (ih hfirst.timers)

theorem protectPredicate_ok {verdict : Verdict} {value : Bool}
    (h : protectPredicate verdict = .ok value) : verdict = .holds value := by
  cases verdict with
  | holds v => rw [Except.ok.inj h]
  | failed => cases h
  | raised => cases h

theorem applyPredicate_acts (h : TimersOk s) (caller : Option Nat) (wait : Wait M) :
    ∃ t, s.applyPredicate caller wait = (protectPredicate (wait.predicate s.mem).verdict, t) ∧
      Acts s t := by
  have hmem := acts_mem h (wait.predicate s.mem).mem
  exact ⟨_, rfl, hmem.trans (actAll_acts hmem.timers caller _)⟩

/-- The store's predicate, which is true of a wait without a bound only if the wait's own is. -/
theorem storePredicate_acts (h : TimersOk s) (caller : Option Nat) (wait : Wait M) :
    ∃ r t, s.storePredicate caller wait = (r, t) ∧ Acts s t ∧ (r = .ok true →
      wait.bound = .unbounded → (wait.predicate s.mem).verdict = .holds true) := by
  obtain ⟨t, happly, hacts⟩ := applyPredicate_acts h caller wait
  rw [State.storePredicate, happly]
  cases hverdict : protectPredicate (wait.predicate s.mem).verdict with
  | error e => exact ⟨_, t, rfl, hacts, nofun⟩
  | ok value =>
    cases value with
    | true => exact ⟨_, t, rfl, hacts, fun _ _ => protectPredicate_ok hverdict⟩
    | false =>
      refine ⟨_, t, rfl, hacts, fun hfired hb => ?_⟩
      rw [hb] at hfired
      cases hfired

/-! ## The steps of a wait

The three places where a wait can return: at its end, when its predicate is read again, and when the
store has answered. -/

/-- Where a wait stands after a step of its own: it returned, or it is evaluated again. -/
structure Went (kept : Prop) (s : State M) (w : Nat) (wait : Wait M) (s' : State M) : Prop where
  timers : TimersOk s'
  returns : ReturnsOk kept s'
  later : Later s s'
  running : s'.running = s.running
  active : s'.active = s.active
  resume : ∀ w' result, .resume w' result ∈ s'.queue → .resume w' result ∈ s.queue
  turn : s'.turn = .code wait.caller ∨ s'.turn = .evaluating w
  count : s'.count = s.count
  placed : ∀ w', places s' w' = held s w' + if w = w' then 1 else 0

theorem Went.of_acts {t : State M} {wait : Wait M} (hacts : Acts s t) (h : Went kept t w wait s') :
    Went kept s w wait s' :=
  ⟨h.timers, h.returns, hacts.later.trans h.later, h.running.trans hacts.running,
    h.active.trans hacts.active, fun w' result hmem =>
      hacts.resume (h.resume w' result hmem), h.turn,
    h.count.trans hacts.count, fun w' => (h.placed w').trans (by rw [hacts.held_eq])⟩

theorem places_returned (s : State M) (w : Nat) (wait : Wait M) (outcome : Outcome) (seen : M)
    (w' : Nat) : places (s.returned w wait outcome seen) w' = held s w' +
    if w = w' then 1 else 0 := by
  rw [places_eq (show (s.returned w wait outcome seen).turn ≠ .evaluating w' from nofun),
    held, held,
    State.returned]
  simp only [List.countP_cons, decide_eq_true_eq, Nat.add_assoc]

/-- A bounded wait returns: its scope is cancelled, so that its timer has settled. -/
theorem finish_went (htimers : TimersOk s) (hreturns : ReturnsOk kept s) (hlive : s.live = true)
    {wait : Wait M} (hw : s.waits w = some wait)
    (htold : Told kept (s.fired wait.bound) wait outcome seen) :
    Went kept s w wait (s.finish w wait outcome seen) := by
  have hspec := cancelScope_spec htimers hlive hw
  rw [State.finish.eq_def]
  generalize s.cancelScope w wait.bound = r at hspec ⊢
  obtain ⟨result, t⟩ := r
  obtain ⟨rfl, htimers', hsettled, hfired, timers, timerState, commands, scope, rfl⟩ := hspec
  have hlater : Later s { s with timers, timerState, commands, scope } := ⟨fun _ _ => id, hfired⟩
  have htold' : Told kept (State.fired { s with timers, timerState, commands, scope } wait.bound)
      wait outcome seen :=
    ⟨htold.ok, fun h => ⟨(htold.timedOut h).1, hlater.fired (htold.timedOut h).2⟩⟩
  have hgoes : Went kept s w wait
      (State.returned { s with timers, timerState, commands, scope } w wait outcome seen) :=
    ⟨htimers'.addReturn hw hsettled, (hreturns.later hlater rfl).addReturn hw htold', hlater, rfl,
      rfl, fun _ _ => id, .inl rfl, rfl, fun w' => places_returned ..⟩
  cases outcome <;> exact hgoes

/-- The predicate is read again: every outcome but another round is told as it is. -/
theorem recheck_went (htimers : TimersOk s) (hreturns : ReturnsOk kept s) (hlive : s.live = true)
    {wait : Wait M} (hw : s.waits w = some wait) : Went kept s w wait (s.recheck w wait) := by
  obtain ⟨t, happly, hacts⟩ := applyPredicate_acts htimers wait.caller wait
  have hreturns' := hreturns.later hacts.later hacts.returns
  have hlive' : t.live = true := hacts.live.trans hlive
  have hw' : t.waits w = some wait := hacts.later.waits hw
  rw [State.recheck, happly]
  refine Went.of_acts hacts ?_
  cases hverdict : protectPredicate (wait.predicate s.mem).verdict with
  | error e => exact finish_went hacts.timers hreturns' hlive' hw' (told_error _ _ wait e _)
  | ok value =>
    have hholds := protectPredicate_ok hverdict
    cases value with
    | true => exact finish_went hacts.timers hreturns' hlive' hw' ⟨fun _ _ => hholds, nofun⟩
    | false =>
      dsimp only
      split
      next hfired =>
        exact finish_went hacts.timers hreturns' hlive' hw' ⟨nofun, fun _ => ⟨hholds, hfired⟩⟩
      · refine ⟨{ hacts.timers with },
          hreturns', .refl _, rfl, rfl,
          fun _ _ => id, .inr rfl, rfl, fun w' => ?_⟩
        rw [places, Nat.add_comm]
        simp only [Turn.evaluating.injEq]
        rfl

theorem answered_went (htimers : TimersOk s) (hreturns : ReturnsOk kept s) {wait : Wait M}
    (hw : s.waits w = some wait) (hlive : wait.bound ≠ .unbounded → s.live = true)
    (htold : result = .ok () → wait.bound = .unbounded → kept →
      (wait.predicate seen).verdict = .holds true) :
    Went kept s w wait (s.answered w wait result seen) := by
  have hplain :
    wait.bound = .unbounded → ∀ outcome, Told kept (s.fired wait.bound) wait outcome seen →
      Went kept s w wait (s.returned w wait outcome seen) := by
    intro hb outcome htold
    refine ⟨htimers.addReturn hw fun _ seq hseq => ?_, hreturns.addReturn hw htold,
      .refl _, rfl, rfl, fun _ _ => id, .inl rfl, rfl,
      places_returned s w wait outcome seen⟩
    cases hb.symm.trans hseq
  rw [State.answered.eq_def]
  split
  next hb => exact hplain hb _ ⟨fun _ hkept => htold rfl hb (hkept hb), nofun⟩
  next hb => exact hplain hb _ (told_error _ _ wait _ seen)
  next hb => exact recheck_went htimers hreturns (hlive fun h => hb h) hw
  next hb =>
    exact finish_went htimers hreturns (hlive fun h => hb h) hw (told_error _ _ wait _ seen)

/-! ## The invariant

`Base` holds after any step; that a queued fiber still has a true predicate needs the run to keep it
true, and `kept` says whether that is assumed. -/

/-- The waiters that the idle check has not found false are still to be visited; after a clean end
there are none. -/
structure DrainOk (s : State M) : Prop where
  pass : ∀ rest, s.turn = .pass rest → ∀ w ∈ s.waiters, w ∈ s.checked ∨ w ∈ rest
  passing : ∀ rest, s.turn = .pass rest → s.running = true
  ended : Clean s → ∀ w ∈ s.waiters, w ∈ s.checked

/-- A bounded wait that is being evaluated is in its owner's turn. -/
def Evaluating (s : State M) : Prop :=
  ∀ w, s.turn = .evaluating w →
    (∀ wait, s.waits w = some wait → wait.bound ≠ .unbounded → s.live = true)

structure Base (kept : Prop) (s : State M) : Prop where
  timers : TimersOk s
  returns : ReturnsOk kept s
  drain : DrainOk s
  evaluating : Evaluating s
  -- code runs in a run, or after a shutdown
  idle : s.running = false → s.active = true → s.turn = .loop

/-- A queued fiber waits for a result that its predicate agrees with. -/
def Ready (kept : Prop) (s : State M) (w : Nat) (result : Except Error Unit) : Prop :=
  ∃ wait, s.waits w = some wait ∧ (result = .ok () → wait.bound = .unbounded → kept →
    (wait.predicate s.mem).verdict = .holds true)

structure Inv (kept : Prop) (s : State M) : Prop where
  base : Base kept s
  queued : ∀ w result, .resume w result ∈ s.queue → Ready kept s w result
  -- a wait is in one place, so that it returns once
  once : ∀ w, places s w ≤ if w < s.count then 1 else 0

/-- What every step keeps, and which fibers it queues. -/
structure Progress (kept : Prop) (s s' : State M) : Prop where
  later : Later s s'
  resume : ∀ w result, .resume w result ∈ s'.queue →
    .resume w result ∈ s.queue ∨ Ready kept s w result
  count : s.count ≤ s'.count
  placed : ∀ w, places s' w ≤ places s w + if s.count ≤ w ∧ w < s'.count then 1 else 0

/-- What a step establishes: the invariant of the state it leads to, up to what is queued, and how
that state continues the one before. -/
structure Stepped (kept : Prop) (s s' : State M) : Prop where
  base : Base kept s'
  progress : Progress kept s s'

theorem inv_init (kept : Prop) (mem : M) : Inv kept (State.init mem) where
  base := ⟨timersOk_init mem, fun _ hr => (by cases hr),
    ⟨fun _ h => (by cases h), fun _ h => (by cases h), fun _ _ hw => (by cases hw)⟩,
    fun _ h => (by cases h), fun _ _ => rfl⟩
  queued _ _ hmem := by cases hmem
  once _ := Nat.le_refl _

/-- Only code that was shut down runs outside a run, so that nothing is clean there. -/
theorem Base.of_busy (htimers : TimersOk s) (hreturns : ReturnsOk kept s)
    (hbusy : s.running = true ∨ s.active = false) (hpass : ∀ rest, s.turn ≠ .pass rest)
    (heval : Evaluating s) : Base kept s := by
  have hnot : s.running = false → s.active = true → False := by
    intro hrunning hactive
    rcases hbusy with h | h
    · cases h.symm.trans hrunning
    · cases h.symm.trans hactive
  refine ⟨htimers, hreturns, ⟨?_, ?_, ?_⟩, heval, fun h h' => (hnot h h').elim⟩
  · exact fun rest hturn => absurd hturn (hpass rest)
  · exact fun rest hturn => absurd hturn (hpass rest)
  · exact fun hclean => (hnot hclean.1 hclean.2.1).elim

theorem Base.busy (hs : Base kept s) (hturn : s.turn ≠ .loop) :
    s.running = true ∨ s.active = false := by
  cases hrunning : s.running with
  | true => exact .inl rfl
  | false =>
    cases hactive : s.active with
    | false => exact .inr rfl
    | true => exact absurd (hs.idle hrunning hactive) hturn

theorem evaluating_of_ne (h : ∀ w, s.turn ≠ .evaluating w) : Evaluating s :=
  fun w hturn => absurd hturn (h w)

theorem Progress.refl (kept : Prop) (s : State M) : Progress kept s s :=
  ⟨.refl s, fun _ _ => .inl, Nat.le_refl _, fun _ => Nat.le_add_right ..⟩

theorem Acts.progress (h : Acts s s') : Progress kept s s' := by
  refine ⟨h.later, fun _ _ hmem => .inl (h.resume hmem), Nat.le_of_eq h.count.symm, fun w => ?_⟩
  rw [places, h.turn, h.held_eq]
  exact Nat.le_add_right ..

/-- A step that queues no fiber and evaluates no wait next. -/
theorem Progress.of_held (hlater : Later s s')
    (hresume : ∀ w result, .resume w result ∈ s'.queue → .resume w result ∈ s.queue)
    (hcount : s'.count = s.count) (hturn : ∀ w, s'.turn ≠ .evaluating w)
    (hheld : ∀ w, held s' w ≤ held s w) : Progress kept s s' :=
  ⟨hlater, fun w result hmem => .inl (hresume w result hmem), Nat.le_of_eq hcount.symm, fun w =>
    calc places s' w = held s' w := places_eq (hturn w)
      _ ≤ held s w := hheld w
      _ ≤ places s w := held_le_places s w
      _ ≤ _ := Nat.le_add_right ..⟩

/-- A step that only changes whose turn it is, and nothing that waits are about. -/
theorem Progress.of_turn (hlater : Later s s') (hqueue : s'.queue = s.queue)
    (hcount : s'.count = s.count) (hturn : ∀ w, s'.turn ≠ .evaluating w)
    (hheld : ∀ w, held s' w ≤ held s w) : Progress kept s s' :=
  .of_held hlater (fun _ _ hmem => hqueue ▸ hmem) hcount hturn hheld

theorem Went.base {wait : Wait M} (h : Went kept s w wait s') (hw : s.waits w = some wait)
    (hbusy : s.running = true ∨ s.active = false)
    (hlive : s'.turn = .evaluating w → wait.bound ≠ .unbounded → s.live = true) : Base kept s' := by
  refine Base.of_busy h.timers h.returns ?_ ?_ ?_
  · rw [h.running, h.active]
    exact hbusy
  · intro rest hpass
    rcases h.turn with hturn | hturn <;> cases hturn.symm.trans hpass
  · intro w' hturn wait' hw' hb
    rcases h.turn with hcode | heval
    · cases hcode.symm.trans hturn
    · obtain rfl := Turn.evaluating.inj (heval.symm.trans hturn)
      obtain rfl := Option.some.inj ((h.later.waits hw).symm.trans hw')
      rw [State.live, h.running, h.active]
      exact hlive heval hb

theorem Went.stepped {wait : Wait M} (h : Went kept s w wait s') (hw : s.waits w = some wait)
    (hbusy : s.running = true ∨ s.active = false)
    (hlive : s'.turn = .evaluating w → wait.bound ≠ .unbounded → s.live = true)
    (hturn : s.turn = .evaluating w) : Stepped kept s s' := by
  refine ⟨h.base hw hbusy hlive, h.later, fun w' r hmem => .inl (h.resume w' r hmem),
    Nat.le_of_eq h.count.symm,
    fun w' => ?_⟩
  rw [h.placed, places, hturn, Nat.add_comm]
  simp only [Turn.evaluating.injEq]
  exact Nat.le_add_right ..

/-! ## Steps -/

theorem Base.evaluate (hs : Base kept s) {wait : Wait M} (hturn : s.turn = .evaluating w)
    (hw : s.waits w = some wait) : Stepped kept s (s.evaluate w wait) := by
  have hbusy := hs.busy (by rw [hturn]; exact nofun)
  have hlive := hs.evaluating w hturn wait hw
  have hrefused (e : Error) : Stepped kept s (s.answered w wait (.error e) s.mem) := by
    have hwent : Went kept s w wait (s.answered w wait (.error e) s.mem) :=
      answered_went hs.timers hs.returns hw hlive nofun
    exact hwent.stepped hw hbusy (fun _ => hlive) hturn
  rw [State.evaluate]
  split
  · exact hrefused _
  · split
    · exact hrefused _
    next hlive' =>
      have hrunning : s.running = true := by
        rw [Bool.not_eq_true', Bool.not_eq_false] at hlive'
        exact (Bool.and_eq_true_iff.mp hlive').1
      obtain ⟨r, t, hstore, hacts, htrue⟩ := storePredicate_acts hs.timers wait.caller wait
      have hreturns := hs.returns.later hacts.later hacts.returns
      have hwent : ∀ result, (result = .ok () → wait.bound = .unbounded → kept →
          (wait.predicate s.mem).verdict = .holds true) →
          Stepped kept s (t.answered w wait result s.mem) := by
        intro result htold
        have hlive : wait.bound ≠ .unbounded → t.live = true := fun hb =>
          hacts.live.trans (hlive hb)
        exact (Went.of_acts hacts (answered_went hacts.timers hreturns (hacts.later.waits hw) hlive
          htold)).stepped hw hbusy (fun _ hb => hacts.live.symm.trans (hlive hb)) hturn
      rw [hstore]
      cases r with
      | error e => exact hwent _ nofun
      | ok value =>
        cases value with
        | true => exact hwent _ fun _ hb _ => htrue rfl hb
        | false =>
          have hnot : (∀ w', (t.register w wait).turn ≠ .evaluating w') ∧
              ∀ rest, (t.register w wait).turn ≠ .pass rest := by
            rw [State.register]
            cases wait.caller <;> exact ⟨nofun, nofun⟩
          have htimers : TimersOk (t.register w wait) := { hacts.timers with }
          refine ⟨Base.of_busy htimers hreturns (.inl (hacts.running.trans hrunning)) hnot.2
            (evaluating_of_ne hnot.1), hacts.later, fun _ _ hmem => .inl (hacts.resume hmem),
            Nat.le_of_eq hacts.count.symm, fun w' => ?_⟩
          · -- the wait that was evaluated is now in the store
            have hheld := hacts.held_eq w'
            rw [places_eq (hnot.1 w'), places, hturn]
            simp only [held, State.register, List.count_append, List.count_singleton, beq_iff_eq,
              Turn.evaluating.injEq] at hheld ⊢
            omega

/-! ### The idle check -/

theorem settle_eq (s : State M) (w : Nat) (wait : Wait M) (result : Except Error Unit) :
    ∃ queue, s.settle w wait result =
      { s with waiters := s.waiters.filter (· ≠ w), queue } ∧
      (queue = s.queue ∨ queue = s.queue ++ [.resume w result]) := by
  rw [State.settle.eq_def]
  cases wait.caller with
  | none => exact ⟨s.queue, rfl, .inl rfl⟩
  | some i =>
    dsimp only
    rw [State.enqueue]
    split
    · exact ⟨_, rfl, .inr rfl⟩
    · exact ⟨s.queue, rfl, .inl rfl⟩

/-- What the idle check keeps at one waiter: it is found false, or it leaves the store. -/
structure Visited (kept : Prop) (s : State M) (w : Nat) (s' : State M) : Prop where
  timers : TimersOk s'
  returns : ReturnsOk kept s'
  later : Later s s'
  resume : ∀ w' result, .resume w' result ∈ s'.queue →
    .resume w' result ∈ s.queue ∨ Ready kept s w' result
  count : s'.count = s.count
  held : ∀ w', held s' w' ≤ held s w'
  running : s'.running = s.running
  waiters : ∀ w' ∈ s'.waiters, w' ∈ s.waiters ∧ (w' = w → w ∈ s'.checked)
  checked : ∀ w' ∈ s.checked, w' ∈ s'.checked

theorem held_settle (hw : w ∈ s.waiters)
    (hqueue : queue = s.queue ∨ queue = s.queue ++ [.resume w result]) (w' : Nat) :
    held { s with waiters := s.waiters.filter (· ≠ w), queue } w' ≤ held s w' := by
  have hresumes : resumes queue w' ≤ resumes s.queue w' + if w = w' then 1 else 0 := by
    rcases hqueue with rfl | rfl
    · exact Nat.le_add_right ..
    · rw [resumes, List.countP_append]
      simp [resumes]
  have hwaiters : (s.waiters.filter (· ≠ w)).count w' + (if w = w' then 1 else 0) ≤
      s.waiters.count w' := by
    by_cases hsame : w = w'
    · subst hsame
      rw [List.count_eq_zero.mpr (by simp), if_pos rfl]
      exact List.count_pos_iff.mpr hw
    · rw [if_neg hsame]
      exact List.filter_sublist.count_le w'
  rw [held, held]
  dsimp only
  omega

theorem settle_visited {t : State M} (hreturns : ReturnsOk kept s) (hacts : Acts s t)
    (hmem : w ∈ s.waiters) {wait : Wait M} (hw : s.waits w = some wait)
    (hready : result = .ok () → wait.bound = .unbounded → kept →
      (wait.predicate s.mem).verdict = .holds true) :
    Visited kept s w (t.settle w wait result) := by
  obtain ⟨queue, hsettle, hqueue⟩ := settle_eq t w wait result
  have hthunk : ∀ thunk ∈ queue, thunk ∈ t.queue ∨ thunk = .resume w result := by
    rcases hqueue with rfl | rfl
    · exact fun _ => .inl
    · intro thunk hthunk
      exact (List.mem_append.mp hthunk).imp_right List.mem_singleton.mp
  have hheld := held_settle (hacts.waiters ▸ hmem) hqueue
  rw [hsettle]
  refine ⟨{ hacts.timers with observer := fun w' hw' => hacts.timers.observer w' ?_ },
    hreturns.later hacts.later hacts.returns, hacts.later, fun w' r hmem => ?_, hacts.count,
    fun w' => Nat.le_trans (hheld w') (Nat.le_of_eq (hacts.held_eq w')), hacts.running,
    fun w' hw' => ?_, fun w' hw' => hacts.checked.symm ▸ hw'⟩
  · rcases hthunk _ hw' with hold | hnew
    · exact hold
    · cases hnew
  · rcases hthunk _ hmem with hold | hnew
    · exact .inl (hacts.resume hold)
    · obtain ⟨rfl, rfl⟩ := Thunk.resume.inj hnew
      exact .inr ⟨wait, hw, hready⟩
  · obtain ⟨hmem, hne⟩ := List.mem_filter.mp hw'
    exact ⟨hacts.waiters ▸ hmem, fun heq => absurd heq (of_decide_eq_true hne)⟩

theorem visit_visited (htimers : TimersOk s) (hreturns : ReturnsOk kept s) {wait : Wait M}
    (hw : s.waits w = some wait) : Visited kept s w (s.visit w wait) := by
  rw [State.visit]
  split
  next hmem =>
    obtain ⟨r, t, hstore, hacts, htrue⟩ := storePredicate_acts htimers none wait
    rw [hstore]
    cases r with
    | error e => exact settle_visited hreturns hacts hmem hw nofun
    | ok value =>
      cases value with
      | true => exact settle_visited hreturns hacts hmem hw fun _ hb _ => htrue rfl hb
      | false =>
        refine ⟨{ hacts.timers with }, hreturns.later hacts.later hacts.returns, hacts.later,
          fun _ _ hmem => .inl (hacts.resume hmem), hacts.count,
          fun w' => Nat.le_of_eq (hacts.held_eq w'), hacts.running, fun w' hw' => ?_,
          fun w' hw' => List.mem_cons_of_mem _ (hacts.checked.symm ▸ hw')⟩
        exact ⟨hacts.waiters ▸ hw', fun _ => List.mem_cons_self⟩
  next hmem =>
    refine ⟨htimers, hreturns, .refl s, fun _ _ => .inl, rfl, fun _ => Nat.le_refl _, rfl,
      fun w' hw' => ⟨hw', ?_⟩, fun _ => id⟩
    rintro rfl
    exact absurd hw' hmem

theorem Base.visit (hs : Base kept s) {rest : List Nat} {wait : Wait M}
    (hturn : s.turn = .pass (w :: rest)) (hw : s.waits w = some wait) :
    Stepped kept s { s.visit w wait with turn := .pass rest } := by
  have hvisited := visit_visited hs.timers hs.returns hw
  have hrunning : (s.visit w wait).running = true :=
    hvisited.running.trans (hs.drain.passing _ hturn)
  refine ⟨⟨{ hvisited.timers with }, hvisited.returns,
    ⟨?_, fun _ _ => hrunning, ?_⟩, evaluating_of_ne nofun, ?_⟩,
    hvisited.later, hvisited.resume, Nat.le_of_eq hvisited.count.symm,
    fun w' => ?_⟩
  · intro rest' hrest w' hw'
    obtain rfl := Turn.pass.inj hrest
    obtain ⟨hbefore, hself⟩ := hvisited.waiters w' hw'
    rcases hs.drain.pass _ hturn w' hbefore with hold | hnext
    · exact .inl (hvisited.checked w' hold)
    · rcases List.mem_cons.mp hnext with heq | hnext
      · exact .inl (heq ▸ hself heq)
      · exact .inr hnext
  · exact fun hclean => (nomatch hrunning.symm.trans hclean.1)
  · exact fun hstopped => (nomatch hrunning.symm.trans hstopped)
  · have hheld : held { s.visit w wait with turn := .pass rest } w' ≤ held s w' := hvisited.held w'
    have hplaces := held_le_places s w'
    rw [places_eq (show State.turn { s.visit w wait with turn := .pass rest } ≠ _ from nofun)]
    omega

/-! ### A new wait -/

theorem TimersOk.ne_count (h : TimersOk s) {wait : Wait M} (hw : s.waits w = some wait) :
    w ≠ s.count := by
  rintro rfl
  rw [h.unused _ (Nat.le_refl _)] at hw
  cases hw

theorem TimersOk.waits_addWait (h : TimersOk s) {wait wait' : Wait M}
    (hw : s.waits w = some wait') :
    Function.update s.waits s.count (some wait) w = some wait' :=
  (Function.update_of_ne (h.ne_count hw) ..).trans hw

theorem TimersOk.addWait (h : TimersOk s) {wait : Wait M} (hb : ∀ seq, wait.bound ≠ .timer seq) :
    TimersOk (s.addWait wait) := by
  obtain ⟨htable, hpend, hfresh, hcommand, hunused, howner, howned, hhook, hobserver,
    hreturned⟩ := h
  constructor <;> simp only [State.addWait, Function.update_apply]
  all_goals grind

theorem Later.addWait (h : TimersOk s) (wait : Wait M) : Later s (s.addWait wait) :=
  ⟨fun _ _ => h.waits_addWait, fun _ => id⟩

/-- A wait is added that owns a pending timer of no other wait, with its hook. -/
theorem TimersOk.addOwner (h : TimersOk s) {wait : Wait M} (hb : wait.bound = .timer seq)
    (hpending : s.timerState seq = some .pending) (hle : seq ≤ s.nextSequence)
    (hfree : s.timerWait seq = none) (hreturns : ∀ r ∈ s.returns, r.wait ≠ s.count) :
    TimersOk { s with
      count := s.count + 1
      waits := Function.update s.waits s.count (some wait)
      scope := Function.update s.scope s.count ⟨false, true⟩
      timerWait := Function.update s.timerWait seq (some s.count) } := by
  obtain ⟨htable, hpend, hfresh, hcommand, hunused, howner, howned, hhook, hobserver,
    hreturned⟩ := h
  constructor <;> simp only [Function.update_apply]
  all_goals grind

theorem startWait_eq (s : State M) (wait : Wait M) (milliseconds : Nat) :
    ((s.addWait wait).startTimer milliseconds (some s.count)).setScope s.count ⟨false, true⟩ =
      let t := s.startTimer milliseconds none
      { t with
        count := t.count + 1
        waits := Function.update t.waits t.count (some wait)
        scope := Function.update t.scope t.count ⟨false, true⟩
        timerWait := Function.update t.timerWait t.nextSequence (some t.count) } := by
  cases hsealed : s.isSealed <;>
    simp [State.startTimer, State.addWait, State.setScope, State.emit, hsealed]

theorem finish_unstarted (htimers : TimersOk s) (hreturns : ReturnsOk kept s) {wait : Wait M}
    (hw : s.waits w = some wait) (hb : ∀ seq, wait.bound ≠ .timer seq) (e : Error) (seen : M) :
    Went kept s w wait (s.finish w wait (.error e) seen) := by
  by_cases hlive : s.live = true
  · exact finish_went htimers hreturns hlive hw (told_error kept _ wait e seen)
  · have hfinish : s.finish w wait (.error e) seen = s.returned w wait (.error e) seen := by
      rw [State.finish.eq_def, State.cancelScope, if_neg hlive]
    rw [hfinish]
    exact ⟨htimers.addReturn hw fun _ seq h => absurd h (hb seq),
      hreturns.addReturn hw (told_error kept _ wait e seen), .refl _, rfl, rfl,
      fun _ _ => id, .inl rfl, rfl, places_returned s w wait (.error e) seen⟩

theorem finish_turn (s : State M) (w : Nat) (wait : Wait M) (outcome : Outcome) (seen : M) :
    (s.finish w wait outcome seen).turn = .code wait.caller := by
  rw [State.finish.eq_def]
  split <;> rfl

theorem TimersOk.startWait (h : TimersOk s) {wait : Wait M}
    (hb : wait.bound = .timer (s.nextSequence + 1)) (hreturns : ∀ r ∈ s.returns, r.wait ≠ s.count)
    (milliseconds : Nat) :
    TimersOk (((s.addWait wait).startTimer milliseconds (some s.count)).setScope s.count
      ⟨false, true⟩) := by
  have htimers := h.startTimer milliseconds
  rw [startWait_eq]
  obtain ⟨commands, hstart, -⟩ := startTimer_eq s milliseconds none
  rw [hstart] at htimers ⊢
  exact htimers.addOwner hb (Function.update_self ..) (Nat.le_refl _)
    (Function.update_self ..) hreturns

theorem Later.startWait (h : TimersOk s) (wait : Wait M) (milliseconds : Nat) :
    Later s (((s.addWait wait).startTimer milliseconds (some s.count)).setScope s.count
      ⟨false, true⟩) := by
  obtain ⟨commands, hstart, -⟩ := startTimer_eq (s.addWait wait) milliseconds (some s.count)
  rw [hstart]
  exact ⟨(Later.addWait h wait).1, fun _ => startTimer_fired h⟩

theorem places_new (hturn : s'.turn = .evaluating s.count) (hcount : s'.count = s.count + 1)
    (hwaiters : s'.waiters = s.waiters) (hqueue : s'.queue = s.queue)
    (hreturns : s'.returns = s.returns) (w : Nat) :
    places s' w ≤ places s w + if s.count ≤ w ∧ w < s'.count then 1 else 0 := by
  have hheld : held s' w = held s w := by rw [held, held, hwaiters, hqueue, hreturns]
  rw [places, places, hturn, hheld, hcount]
  simp only [Turn.evaluating.injEq]
  split <;> split <;> split <;> omega

theorem Base.wait (hs : Base kept s) {caller : Option Nat} (hturn : s.turn = .code caller)
    (timeout : Option Nat) (predicate : M → Evaluation M) :
    Stepped kept s (s.wait caller timeout predicate) := by
  have hbusy := hs.busy (by rw [hturn]; exact nofun)
  -- a wait without a timer, that is evaluated next
  have hplain : ∀ wait : Wait M, (∀ seq, wait.bound ≠ .timer seq) →
      (wait.bound ≠ .unbounded → s.live = true) →
      Stepped kept s { s.addWait wait with turn := .evaluating s.count } := by
    intro wait hb hlive
    have hlater := Later.addWait hs.timers wait
    refine ⟨Base.of_busy { (hs.timers.addWait hb) with } (hs.returns.later hlater rfl)
      hbusy nofun ?_,
      hlater, fun _ _ => .inl, Nat.le_succ _, places_new rfl rfl rfl rfl rfl⟩
    intro w hw wait' hwait' hb'
    obtain rfl := Turn.evaluating.inj hw
    have hnew : (s.addWait wait).waits s.count = some wait := Function.update_self ..
    obtain rfl := Option.some.inj (hnew.symm.trans hwait')
    exact hlive hb'
  rw [State.wait.eq_def]
  dsimp only
  split
  · exact hplain _ (fun seq h => (by cases h)) (fun h => absurd rfl h)
  next milliseconds =>
    split
    · exact ⟨hs, .refl kept s⟩
    next hactive =>
      split
      · have hlater := Later.addWait hs.timers ⟨caller, predicate, .unstarted⟩
        have hwent := finish_unstarted (hs.timers.addWait (fun seq h => (by cases h)))
          (hs.returns.later hlater rfl) (Function.update_self ..) (fun seq h => (by cases h))
          sleepOutside s.mem
        refine ⟨hwent.base (Function.update_self ..) hbusy fun heval => ?_,
          hlater.trans hwent.later, fun w' r hmem => .inl (hwent.resume w' r hmem), ?_,
          fun w' => ?_⟩
        · cases (finish_turn ..).symm.trans heval
        · rw [hwent.count]
          exact Nat.le_succ _
        · rw [hwent.placed, hwent.count, places]
          have hheld : held (s.addWait ⟨caller, predicate, .unstarted⟩) w' = held s w' := rfl
          have hcount : (s.addWait ⟨caller, predicate, .unstarted⟩).count = s.count + 1 := rfl
          rw [hheld, hcount]
          split <;> split <;> split <;> omega
      next hopen =>
        have hlive : s.live = true := by
          rw [Bool.or_eq_true, not_or] at hopen
          rw [State.live, Bool.and_eq_true]
          simpa using And.intro hopen.2 hactive
        split
        · exact hplain _ (fun seq h => (by cases h)) fun _ => hlive
        · have hreturns : ∀ r ∈ s.returns, r.wait ≠ s.count := by
            intro r hr
            obtain ⟨wait', hw', -⟩ := hs.returns r hr
            exact hs.timers.ne_count hw'
          have htimers := hs.timers.startWait
            (show (⟨caller, predicate, .timer (s.nextSequence + 1)⟩ : Wait M).bound = _ from rfl)
            hreturns milliseconds
          have hlater := Later.startWait hs.timers
            ⟨caller, predicate, .timer (s.nextSequence + 1)⟩ milliseconds
          obtain ⟨commands, hstart, -⟩ := startTimer_eq
            (s.addWait ⟨caller, predicate, .timer (s.nextSequence + 1)⟩) milliseconds (some s.count)
          rw [hstart] at htimers hlater ⊢
          refine ⟨Base.of_busy { htimers with } (hs.returns.later hlater rfl) hbusy nofun
            (fun _ _ _ _ _ => hlive), hlater, fun _ _ => .inl, Nat.le_succ _,
            places_new rfl rfl rfl rfl rfl⟩

/-! ### The scheduler -/

theorem Base.endRun (hs : Base kept s) (hended : Clean s.endRun → ∀ w ∈ s.waiters, w ∈ s.checked) :
    Stepped kept s s.endRun :=
  ⟨⟨{ hs.timers with },
    hs.returns,
    ⟨fun _ h => (by cases h), fun _ h => (by cases h), hended⟩, fun _ h => (by cases h),
    fun _ _ => rfl⟩, .of_turn (.refl _) rfl rfl nofun fun _ => Nat.le_refl _⟩

/-- A dequeued thunk runs up to the code that it continues. -/
theorem Inv.invoke (hs : Inv kept s) (hturn : s.turn = .loop) (hrunning : s.running = true)
    {thunk : Thunk} (hqueue : s.queue = thunk :: queue)
    (h : { s with queue, checked := [] }.invoke thunk = some s') : Stepped kept s s' := by
  have hsub : ∀ t ∈ queue, t ∈ s.queue := fun t ht => hqueue ▸ List.mem_cons_of_mem _ ht
  have hhead : thunk ∈ s.queue := hqueue ▸ List.mem_cons_self
  have htimers : TimersOk { s with queue, checked := [] } :=
    { hs.base.timers with observer := fun w hw => hs.base.timers.observer w (hsub _ hw) }
  have hreturns : ReturnsOk kept { s with queue, checked := [] } :=
    hs.base.returns
  have hheld : ∀ w, held { s with queue, checked := [] } w ≤ held s w := by
    intro w
    have hle : resumes queue w ≤ resumes s.queue w := by
      rw [hqueue]
      exact (List.sublist_cons_self thunk queue).countP_le
    rw [held, held]
    dsimp only
    omega
  have hcode : ∀ caller,
      Stepped kept s { s with queue, checked := [], turn := .code caller } := fun caller =>
    ⟨Base.of_busy { htimers with }
      hreturns (.inl hrunning) nofun (evaluating_of_ne nofun),
      .of_held (.refl _) (fun _ _ hmem => hsub _ hmem) rfl nofun hheld⟩
  cases thunk with
  | code caller =>
    obtain rfl := Option.some.inj h
    exact hcode caller
  | detach w =>
    have hsettled := hs.base.timers.observer w hhead
    rw [State.invoke] at h
    have hpass : ∀ rest, s.turn ≠ .pass rest := by
      rw [hturn]
      exact nofun
    have heval : ∀ w, s.turn ≠ .evaluating w := by
      rw [hturn]
      exact nofun
    split at h
    · obtain rfl := Option.some.inj h
      refine ⟨Base.of_busy (htimers.setScope ?_) hreturns
        (.inl hrunning) hpass (evaluating_of_ne heval), .of_held (.refl _)
        (fun _ _ hmem => hsub _ hmem) rfl heval hheld⟩
      intro _ wait seq hw hb hpending
      obtain ⟨wait', hw', hne⟩ := hsettled
      obtain rfl := Option.some.inj (hw.symm.trans hw')
      exact absurd hpending (hne seq hb)
    · obtain rfl := Option.some.inj h
      exact ⟨Base.of_busy htimers hreturns (.inl hrunning) hpass (evaluating_of_ne heval),
        .of_held (.refl _) (fun _ _ hmem => hsub _ hmem) rfl heval hheld⟩
  | resume w result =>
    obtain ⟨wait, hw, hready⟩ := hs.queued w result hhead
    rw [State.invoke, show State.waits { s with queue, checked := [] } w = some wait from hw] at h
    obtain rfl := Option.some.inj h
    split
    next hlive =>
      have hwent := answered_went htimers hreturns hw (fun _ => hlive) hready
      refine ⟨hwent.base hw (.inl hrunning) fun _ _ => hlive, hwent.later,
        fun w' r hmem => .inl (hsub _ (hwent.resume w' r hmem)), Nat.le_of_eq hwent.count.symm,
        fun w' => ?_⟩
      -- the resumption was counted before it was dequeued
      have hpopped : resumes s.queue w' = resumes queue w' + if w = w' then 1 else 0 := by
        rw [hqueue, resumes, List.countP_cons]
        simp [resumes]
      have hplaces := held_le_places s w'
      rw [hwent.placed]
      rw [held, hpopped] at hplaces
      rw [held]
      dsimp only
      omega
    · exact hcode _

theorem Inv.next (hs : Inv kept s) (hturn : s.turn = .loop) (hrunning : s.running = true)
    (h : s.next = some s') : Stepped kept s s' := by
  rw [State.next.eq_def] at h
  split at h
  next thunk queue hqueue _ => exact hs.invoke hturn hrunning hqueue h
  · split at h
    next hidle =>
      split at h
      next hterminal =>
        obtain rfl := Option.some.inj h
        exact hs.base.endRun fun hclean => (nomatch hterminal.symm.trans hclean.2.2.2.2)
      · obtain rfl := Option.some.inj h
        refine ⟨⟨{ hs.base.timers with }, hs.base.returns,
          ⟨?_, fun _ _ => hrunning, ?_⟩, evaluating_of_ne nofun, ?_⟩,
          .of_turn (.refl _) rfl rfl nofun fun _ => Nat.le_refl _⟩
        · intro rest hrest w hw
          obtain rfl := Turn.pass.inj hrest
          exact .inr hw
        · exact fun hclean => (nomatch hrunning.symm.trans hclean.1)
        · exact fun hstopped => (nomatch hrunning.symm.trans hstopped)
    next hbusy =>
      obtain rfl := Option.some.inj h
      refine hs.base.endRun fun hclean => absurd ?_ hbusy
      obtain ⟨-, hactive, habort, hfailed, -⟩ := hclean
      rw [show s.active = true from hactive, show s.abortRequested = false from habort,
        show s.failed = false from hfailed]
      rfl

theorem Inv.machineStep (hs : Inv kept s) (h : s.machineStep = some s') : Stepped kept s s' := by
  rw [State.machineStep] at h
  split at h
  next hturn =>
    split at h
    next hrunning => exact hs.next hturn hrunning h
    · cases h
  next w hturn =>
    obtain ⟨wait, hw, rfl⟩ := Option.map_eq_some_iff.mp h
    exact hs.base.evaluate hturn hw
  next hturn =>
    obtain rfl := Option.some.inj h
    split
    · refine hs.base.endRun fun _ w hw => ?_
      rcases hs.base.drain.pass _ hturn w hw with hchecked | hrest
      · exact hchecked
      · cases hrest
    · exact ⟨Base.of_busy { hs.base.timers with } hs.base.returns
        (.inl (hs.base.drain.passing _ hturn)) nofun (evaluating_of_ne nofun),
        .of_turn (.refl _) rfl rfl nofun fun _ => Nat.le_refl _⟩
  next w rest hturn =>
    obtain ⟨wait, hw, rfl⟩ := Option.map_eq_some_iff.mp h
    exact hs.base.visit hturn hw
  · cases h

/-! ### Code -/

/-- Code goes on or leaves, with timers, returns and queued fibers as they were. -/
theorem Acts.stepped (hacts : Acts s s') (hreturns : ReturnsOk kept s)
    (hbusy : s.running = true ∨ s.active = false) {turn : Turn} (hpass : ∀ rest, turn ≠ .pass rest)
    (heval : ∀ w, turn ≠ .evaluating w) : Stepped kept s { s' with turn } := by
  refine ⟨Base.of_busy { hacts.timers with } ((hreturns.later hacts.later hacts.returns))
    ?_ hpass (evaluating_of_ne heval), .of_held hacts.later
    (fun _ _ hmem => hacts.resume hmem) hacts.count heval fun w => Nat.le_of_eq (hacts.held_eq w)⟩
  rw [show s'.running = s.running from hacts.running, show s'.active = s.active from hacts.active]
  exact hbusy

/-- Once the context is shut down, no table, waiter or hook is left to speak of. -/
theorem TimersOk.shutdown (h : TimersOk s) : TimersOk s.shutdown  where
  table _ hmem := by cases hmem
  pending hsealed := by cases hsealed
  fresh := h.fresh
  commands := h.commands
  unused := h.unused
  owner := h.owner
  owned := h.owned
  hook hsealed := by cases hsealed
  observer := h.observer
  returned := h.returned

theorem stepped_shutdown (htimers : TimersOk s) (hreturns : ReturnsOk kept s) (terminal : Bool) :
    Stepped kept s { s.shutdown with terminal, turn := .loop } :=
  ⟨Base.of_busy { htimers.shutdown with } hreturns (.inr rfl) nofun
    (evaluating_of_ne nofun), .of_turn (.refl _) rfl rfl nofun fun w => by
      rw [held, held]
      dsimp only [State.shutdown]
      rw [List.count_nil]
      omega⟩

theorem acts_recordFailure (h : TimersOk s) : Acts s s.recordFailure := by
  rw [State.recordFailure]
  split
  · exact ⟨{ h with },
      .refl _, rfl, rfl, rfl, rfl, rfl, rfl, rfl,
      fun hclean => (nomatch hclean.2.2.2.1), rfl, [], (List.append_nil _).symm⟩
  · exact .refl h

theorem Inv.codeStep (hs : Inv kept s) {caller : Option Nat} (hturn : s.turn = .code caller)
    (h : s.codeStep caller label = some s') : Stepped kept s s' := by
  have hbusy := hs.base.busy (by rw [hturn]; exact nofun)
  have hcode : ∀ {t}, Acts s t → Stepped kept s t := by
    intro t hacts
    have hstepped : Stepped kept s { t with turn := .code caller } :=
      hacts.stepped hs.base.returns hbusy nofun nofun
    rwa [show ({ t with turn := .code caller } : State M) = t by rw [← hturn, ← hacts.turn]]
      at hstepped
  cases label with
  | mutate mem =>
    obtain rfl := Option.some.inj h
    exact hcode (acts_mem hs.base.timers mem)
  | act action =>
    obtain rfl := Option.some.inj h
    exact hcode (act_acts hs.base.timers caller action)
  | wait timeout predicate =>
    obtain rfl := Option.some.inj h
    exact hs.base.wait hturn timeout predicate
  | leave =>
    obtain rfl := Option.some.inj h
    exact (Acts.refl hs.base.timers).stepped hs.base.returns hbusy nofun nofun
  | raise =>
    obtain rfl := Option.some.inj h
    exact (acts_recordFailure hs.base.timers).stepped hs.base.returns hbusy nofun nofun
  | terminate =>
    rw [State.codeStep.eq_def] at h
    cases caller with
    | none => cases h
    | some fiber =>
      dsimp only at h
      split at h
      · obtain rfl := Option.some.inj h
        exact (Acts.refl hs.base.timers).stepped hs.base.returns hbusy nofun nofun
      · obtain rfl := Option.some.inj h
        obtain ⟨commands, hemit, hcount⟩ :=
          emit_eq s (show ∀ seq, Command.terminal ≠ .cancelTimer seq from nofun)
        rw [hemit]
        have htimers : TimersOk { s with commands } := { hs.base.timers with
          commands := fun seq => (hcount seq).trans (hs.base.timers.commands seq) }
        have hstepped := stepped_shutdown htimers
          hs.base.returns true
        exact ⟨hstepped.base, .refl _, fun _ _ => .inl,
          hstepped.progress.count, hstepped.progress.placed⟩
  | job | fire | beginRun | shutdown | next | discontinue => cases h

/-! ### Between runs -/

/-- A step that leaves the drain as it is. -/
theorem Base.of_same (hs : Base kept s) (htimers : TimersOk s') (hlater : Later s s')
    (hturn : s.turn = .loop) (hturn' : s'.turn = s.turn) (hreturns : s'.returns = s.returns)
    (hwaiters : s'.waiters = s.waiters) (hchecked : s'.checked = s.checked)
    (hclean : Clean s' → Clean s) : Base kept s' := by
  rw [hturn] at hturn'
  refine ⟨htimers, hs.returns.later hlater hreturns, ⟨?_, ?_, ?_⟩, ?_, fun _ _ => hturn'⟩
  · exact fun rest hpass => (nomatch hturn'.symm.trans hpass)
  · exact fun rest hpass => (nomatch hturn'.symm.trans hpass)
  · rw [hwaiters, hchecked]
    exact fun h => hs.drain.ended (hclean h)
  · exact fun w heval => (nomatch hturn'.symm.trans heval)

/-- `fire_timer`: the observer that is queued finds the timer of its wait settled. -/
theorem fireTimer_acts (h : TimersOk s) (hseq : seq ∈ s.timers) :
    TimersOk (s.fireTimer seq) ∧ Later s (s.fireTimer seq) ∧
      ∃ queue, s.fireTimer seq = { s with
        timers := s.timers.filter (· ≠ seq)
        timerState := Function.update s.timerState seq (some .fired)
        queue } ∧ (∀ w result, .resume w result ∈ queue → .resume w result ∈ s.queue) ∧
          ∀ w, resumes queue w = resumes s.queue w := by
  have hfired : ∀ seq', s.timerState seq' = some .fired →
      Function.update s.timerState seq (some .fired) seq' = some .fired := by
    intro seq' hfired
    by_cases hsame : seq' = seq
    · rw [hsame]
      exact Function.update_self ..
    · exact (Function.update_of_ne hsame ..).trans hfired
  have hsettled := h.settleTimer hseq (show TimerState.fired ≠ .pending by decide)
    (show ∀ seq', s.commands.count (.cancelTimer seq') = s.commands.count (.cancelTimer seq') +
      if seq' = seq ∧ TimerState.fired = .cancelled then 1 else 0 by simp)
  rw [State.fireTimer]
  split
  next w hw =>
    split
    · rw [State.enqueue]
      split
      · refine ⟨?_, ⟨fun _ _ => id, hfired⟩, _, rfl, fun w' result hmem => ?_, fun w' => ?_⟩
        · obtain ⟨wait, hwait, hb, -⟩ := h.owned seq w hw
          refine { hsettled with observer := fun w' hw' => ?_ }
          rcases List.mem_append.mp hw' with hold | hnew
          · exact hsettled.observer w' hold
          · obtain rfl := Thunk.detach.inj (List.mem_singleton.mp hnew)
            refine ⟨wait, hwait, fun seq' hb' hpending => ?_⟩
            obtain rfl := Bound.timer.inj (hb.symm.trans hb')
            dsimp only at hpending
            rw [Function.update_self] at hpending
            cases hpending
        · rcases List.mem_append.mp hmem with hold | hnew
          · exact hold
          · cases List.mem_singleton.mp hnew
        · rw [resumes, List.countP_append]
          rfl
      · exact ⟨hsettled, ⟨fun _ _ => id, hfired⟩, s.queue, rfl, fun _ _ => id, fun _ => rfl⟩
    · exact ⟨hsettled, ⟨fun _ _ => id, hfired⟩, s.queue, rfl, fun _ _ => id, fun _ => rfl⟩
  · exact ⟨hsettled, ⟨fun _ _ => id, hfired⟩, s.queue, rfl, fun _ _ => id, fun _ => rfl⟩

theorem Inv.outerStep (hs : Inv kept s) (hturn : s.turn = .loop) (h : s.outerStep label = some s') :
    Stepped kept s s' := by
  cases label with
  | job mem callers =>
    obtain rfl := Option.some.inj h
    have hmem := acts_mem hs.base.timers mem
    have hacts := hmem.trans (act_acts hmem.timers none (.enqueue callers))
    exact ⟨hs.base.of_same hacts.timers hacts.later hturn hacts.turn hacts.returns hacts.waiters
      hacts.checked hacts.clean, hacts.progress⟩
  | fire seq =>
    rw [State.outerStep] at h
    split at h
    next hseq =>
      obtain rfl := Option.some.inj h
      obtain ⟨htimers, hlater, queue, hfire, hqueue⟩ := fireTimer_acts hs.base.timers hseq
      rw [hfire] at htimers hlater ⊢
      refine ⟨hs.base.of_same htimers hlater hturn rfl rfl rfl rfl id, .of_held hlater
        hqueue.1 rfl ?_ fun w => ?_⟩
      · dsimp only
        rw [hturn]
        exact nofun
      · rw [held, held]
        have hle := hqueue.2 w
        dsimp only
        omega
    · cases h
  | beginRun =>
    rw [State.outerStep] at h
    split at h
    · obtain rfl := Option.some.inj h
      refine ⟨Base.of_busy { hs.base.timers with } hs.base.returns (.inl rfl) ?_
        (evaluating_of_ne ?_), .of_turn (.refl _) rfl rfl ?_ fun _ => Nat.le_refl _⟩
      all_goals
        dsimp only
        rw [hturn]
        exact nofun
    · cases h
  | shutdown =>
    obtain rfl := Option.some.inj h
    have hstepped := stepped_shutdown hs.base.timers hs.base.returns s.terminal
    rwa [show ({ s.shutdown with terminal := s.terminal, turn := .loop } : State M) = s.shutdown by
      rw [← hturn]; rfl] at hstepped
  | mutate | act | wait | leave | raise | terminate | next | discontinue => cases h

theorem Inv.step (hs : Inv kept s) (h : s.step label = some s') : Stepped kept s s' := by
  rw [State.step.eq_def] at h
  split at h
  · exact hs.machineStep h
  next fiber hturn =>
    split at h
    · cases h
    next hactive =>
      obtain rfl := Option.some.inj h
      exact (Acts.refl hs.base.timers).stepped hs.base.returns (.inr (Bool.not_eq_true _ ▸ hactive))
        nofun nofun
  next _ caller _ hturn => exact hs.codeStep hturn h
  next _ _ hturn =>
    split at h
    · cases h
    · exact hs.outerStep hturn h
  · cases h

/-! ## Runs -/

/-- The step does not make the predicate of a settled wait without a bound false. -/
def keeps (s : State M) (label : Label M) : Bool :=
  match s.step label with
  | none => true
  | some s' => s'.queue.all fun
    | .resume w (.ok ()) =>
      match s.waits w with
      | some wait =>
        wait.bound ≠ .unbounded || (wait.predicate s.mem).verdict ≠ .holds true ||
          (wait.predicate s'.mem).verdict = .holds true
      | none => true
    | _ => true

theorem keeps_holds (hkeeps : keeps s label = true) (h : s.step label = some s') {wait : Wait M}
    (hmem : .resume w (.ok ()) ∈ s'.queue) (hw : s.waits w = some wait)
    (hb : wait.bound = .unbounded) (hholds : (wait.predicate s.mem).verdict = .holds true) :
    (wait.predicate s'.mem).verdict = .holds true := by
  rw [keeps, h] at hkeeps
  have hthis := List.all_eq_true.mp hkeeps _ hmem
  simpa [hw, hb, hholds] using hthis

theorem Inv.next_of_keeps (hs : Inv kept s) (hkeeps : kept → keeps s label = true)
    (h : s.step label = some s') : Inv kept s' := by
  have hstepped := hs.step h
  refine ⟨hstepped.base, fun w result hmem => ?_, fun w => ?_⟩
  · have hready : Ready kept s w result := by
      rcases hstepped.progress.resume w result hmem with hold | hnew
      · exact hs.queued w result hold
      · exact hnew
    obtain ⟨wait, hw, hholds⟩ := hready
    refine ⟨wait, hstepped.progress.later.waits hw, ?_⟩
    rintro rfl hb hkept
    exact keeps_holds (hkeeps hkept) h hmem hw hb (hholds rfl hb hkept)
  · have hcount := hstepped.progress.count
    refine Nat.le_trans (hstepped.progress.placed w)
      (Nat.le_trans (Nat.add_le_add_right (hs.once w) _) ?_)
    split <;> split <;> split <;> omega

/-- In a run that keeps the predicates of settled waits true, a wait that returns `Ok`, with or
without a bound, returns to a state in which its predicate is true. -/
theorem unbounded_wait_holds (mem : M)
    (hs : (system mem).ReachableIf (fun s label => keeps s label = true) s) {r : Return M}
    (hr : r ∈ s.returns) (hok : r.outcome = .ok) {wait : Wait M} (hw : s.waits r.wait = some wait) :
    (wait.predicate r.seen).verdict = .holds true := by
  have hinv : Inv True s := by
    refine hs.invariant (fun s hstart => ?_) (fun label s s' _ hs hkeeps h => ?_)
    · rw [show s = State.init mem from hstart]
      exact inv_init True mem
    · exact hs.next_of_keeps (fun _ => hkeeps) h
  obtain ⟨wait', hw', htold⟩ := hinv.base.returns r hr
  obtain rfl := Option.some.inj (hw.symm.trans hw')
  exact htold.ok hok fun _ => trivial

/-- Two fibers wait for a flag without a bound; it is set, and both are settled by one idle check.
The first has returned. -/
def bothSettled : List (Label Bool) :=
  let flag : Bool → Evaluation Bool := fun m => ⟨m, [], .holds m⟩
  [.job false [some 0, some 1], .beginRun, .next, .wait none flag, .next, .next, .wait none flag,
    .next, .next, .next, .next, .next, .job true [], .beginRun, .next, .next, .next, .next, .next]

/-- What a run says of the second wait. -/
def second (s : State Bool) : List (Nat × Outcome × Bool) × Option (Bound × Verdict × Verdict) :=
  (s.returns.map fun r => (r.wait, r.outcome, r.seen),
    (s.waits 1).map fun wait =>
      (wait.bound, (wait.predicate false).verdict, (wait.predicate true).verdict))

/-- The second fiber returns while the flag is still set. -/
theorem unbounded_wait_holds_bothSettled : ∃ s : State Bool,
    (system false).ReachableIf (fun s label => keeps s label = true) s ∧
      ∃ r ∈ s.returns, r.wait = 1 ∧ r.outcome = .ok ∧ ∃ wait, s.waits r.wait = some wait ∧
        wait.bound = .unbounded ∧ (wait.predicate r.seen).verdict = .holds true := by
  have hrun : ((system false).replayIf (fun s label => keeps s label = true)
      (bothSettled ++ [.leave, .next]) (State.init false)).map second =
      some ([(1, .ok, true), (0, .ok, true)], some (.unbounded, .holds false, .holds true)) := by
    decide +kernel
  obtain ⟨s, hs, hsecond⟩ := Option.map_eq_some_iff.mp hrun
  obtain ⟨hreturns, hwait⟩ := Prod.mk.inj hsecond
  have hreach := Lib.Transitions.ReachableIf.replay (.start rfl) hs
  have hmem : (1, Outcome.ok, true) ∈ s.returns.map fun r => (r.wait, r.outcome, r.seen) := by
    rw [hreturns]
    exact List.mem_cons_self
  obtain ⟨r, hr, heq⟩ := List.mem_map.mp hmem
  obtain ⟨hr1, hok, -⟩ : r.wait = 1 ∧ r.outcome = .ok ∧ r.seen = true := by simpa using heq
  obtain ⟨wait, hw, hb⟩ := Option.map_eq_some_iff.mp hwait
  have hw' : s.waits r.wait = some wait := hr1 ▸ hw
  exact ⟨s, hreach, r, hr, hr1, hok, wait, hw', (Prod.mk.inj hb).1,
    unbounded_wait_holds false hreach hr hok hw'⟩

/-- The first fiber clears the flag before the second one goes on: the second wait returns `Ok`
with its predicate false. -/
theorem unbounded_wait_stale : ∃ s : State Bool, (system false).Reachable s ∧
    ∃ r ∈ s.returns, r.outcome = .ok ∧ ∃ wait, s.waits r.wait = some wait ∧
      wait.bound = .unbounded ∧ (wait.predicate r.seen).verdict = .holds false := by
  have hrun : ((system false).replay (bothSettled ++ [.mutate false, .leave, .next])
      (State.init false)).map second =
      some ([(1, .ok, false), (0, .ok, true)], some (.unbounded, .holds false, .holds true)) := by
    decide +kernel
  obtain ⟨s, hs, hsecond⟩ := Option.map_eq_some_iff.mp hrun
  obtain ⟨hreturns, hwait⟩ := Prod.mk.inj hsecond
  have hmem : (1, Outcome.ok, false) ∈ s.returns.map fun r => (r.wait, r.outcome, r.seen) := by
    rw [hreturns]
    exact List.mem_cons_self
  obtain ⟨r, hr, heq⟩ := List.mem_map.mp hmem
  obtain ⟨hr1, hok, hseen⟩ : r.wait = 1 ∧ r.outcome = .ok ∧ r.seen = false := by simpa using heq
  obtain ⟨wait, hw, hb⟩ := Option.map_eq_some_iff.mp hwait
  obtain ⟨hbound, hverdicts⟩ := Prod.mk.inj hb
  refine ⟨s, Lib.Transitions.Reachable.replay (.start rfl) hs, r, hr, hok, wait, hr1 ▸ hw,
    hbound, ?_⟩
  rw [hseen]
  exact (Prod.mk.inj hverdicts).1

/-! ## Bounded waits

The assumption on runs is not needed here: a wait with a timeout reads its predicate in the step in
which it returns. -/

/-- What holds of the waits with a timeout: each returns once, with the outcome that its predicate
and its timer have at that moment, and in an open context its timer is then settled. -/
structure BoundedWaitsOk (s : State M) : Prop where
  -- a wait returns once
  once : (s.returns.map (·.wait)).Nodup
  ok : ∀ r ∈ s.returns, r.outcome = .ok → ∀ wait, s.waits r.wait = some wait →
    wait.bound ≠ .unbounded → (wait.predicate r.seen).verdict = .holds true
  timedOut : ∀ r ∈ s.returns, r.outcome = .timedOut → ∀ wait, s.waits r.wait = some wait →
    (wait.predicate r.seen).verdict = .holds false ∧ s.fired wait.bound = true
  /-- The timer of a wait that returned in an open context has settled: it fired, or it was
  cancelled by one command. -/
  timer : ∀ r ∈ s.returns, r.isSealed = false → ∀ wait seq, s.waits r.wait = some wait →
    wait.bound = .timer seq → seq ∉ s.timers ∧
      s.commands.count (.cancelTimer seq) = if s.timerState seq = some .fired then 0 else 1
  -- at the end of a drain every waiter was found false after the last thunk
  drained : Clean s → ∀ w ∈ s.waiters, w ∈ s.checked

theorem inv_of_reachable {mem : M} (hs : (system mem).Reachable s) : Inv False s := by
  refine hs.invariant (fun s hstart => ?_) (fun label s s' _ hs h => ?_)
  · rw [show s = State.init mem from hstart]
    exact inv_init False mem
  · exact hs.next_of_keeps (nomatch ·) h

theorem returned_once (hs : Inv kept s) : (s.returns.map (·.wait)).Nodup := by
  refine List.nodup_iff_count_le_one.mpr fun w => ?_
  have hone : places s w ≤ 1 := Nat.le_trans (hs.once w) (by split <;> omega)
  have hheld := held_le_places s w
  have hcount : (s.returns.map (·.wait)).count w = s.returns.countP (·.wait = w) := by
    rw [List.count, List.countP_map]
    rfl
  rw [held] at hheld
  omega

/-- **Bounded condition waits**, under every program and every order of firings, activations and
scheduler steps. No timer of a wait that has returned is left pending unless the context was sealed
before. -/
theorem bounded_waits_ok (mem : M) (hs : (system mem).Reachable s) : BoundedWaitsOk s := by
  have hinv := inv_of_reachable hs
  have htold : ∀ r ∈ s.returns, ∀ wait, s.waits r.wait = some wait →
      Told False (s.fired wait.bound) wait r.outcome r.seen := by
    intro r hr wait hw
    obtain ⟨wait', hw', htold⟩ := hinv.base.returns r hr
    obtain rfl := Option.some.inj (hw.symm.trans hw')
    exact htold
  refine ⟨returned_once hinv, ?_, ?_, ?_, hinv.base.drain.ended⟩
  · exact fun r hr hok wait hw hb => (htold r hr wait hw).ok hok fun h => absurd h hb
  · exact fun r hr htimedOut wait hw => (htold r hr wait hw).timedOut htimedOut
  · intro r hr hsealed wait seq hw hb
    have htimers := hinv.base.timers
    have hsettled := htimers.returned r hr hsealed wait seq hw hb
    refine ⟨fun hmem => hsettled (htimers.table seq hmem), ?_⟩
    have hsome := (htimers.owner r.wait wait seq hw hb).2
    rw [htimers.commands]
    cases hstate : s.timerState seq with
    | none => exact absurd hstate hsome
    | some state =>
      cases state with
      | pending => exact absurd hstate hsettled
      | fired => rfl
      | cancelled => rfl

/-- One wait is satisfied before its bound and one is not. -/
def satisfiedAndTimedOut : List (Label Bool) :=
  let flag : Bool → Evaluation Bool := fun m => ⟨m, [], .holds m⟩
  let never : Bool → Evaluation Bool := fun m => ⟨m, [], .holds false⟩
  [.job false [some 0, some 1], .beginRun, .next, .wait (some 5) flag, .next, .next,
    .wait (some 7) never, .next, .next, .next, .next, .next,
    .job true [], .fire 2, .beginRun, .next, .next, .next, .next, .next, .next, .leave, .next]

theorem bounded_waits_ok_satisfiedAndTimedOut : ∃ s : State Bool, (system false).Reachable s ∧
    s.returns.map (fun r => (r.wait, r.outcome, r.isSealed)) =
      [(1, .timedOut, false), (0, .ok, false)] ∧
    s.commands = [.startTimer 1 5, .startTimer 2 7, .cancelTimer 1] ∧ BoundedWaitsOk s := by
  have hrun : ((system false).replay satisfiedAndTimedOut (State.init false)).map (fun s =>
      (s.returns.map (fun r => (r.wait, r.outcome, r.isSealed)), s.commands)) =
      some ([(1, .timedOut, false), (0, .ok, false)],
        [.startTimer 1 5, .startTimer 2 7, .cancelTimer 1]) := by
    decide +kernel
  obtain ⟨s, hs, heq⟩ := Option.map_eq_some_iff.mp hrun
  obtain ⟨hreturns, hcommands⟩ := Prod.mk.inj heq
  have hreach := Lib.Transitions.Reachable.replay (.start rfl) hs
  exact ⟨s, hreach, hreturns, hcommands, bounded_waits_ok false hreach⟩

/-- A predicate that continues as new and swallows the abort: its wait returns `Ok` in a sealed
context, where its timer is not cancelled. -/
theorem sealed_wait_keeps_timer : ∃ s : State Unit, (system ()).Reachable s ∧
    ∃ r ∈ s.returns, r.outcome = .ok ∧ ∃ wait seq, s.waits r.wait = some wait ∧
      wait.bound = .timer seq ∧ seq ∈ s.timers ∧ .cancelTimer seq ∉ s.commands := by
  have hrun : ((system ()).replay [.job () [some 0], .beginRun, .next,
      .wait (some 5) fun m => ⟨m, [.continueAsNew], .holds true⟩, .next] (State.init ())).map
      (fun s =>
        (s.returns.map (fun r => (r.wait, r.outcome)), (s.waits 0).map (·.bound), s.timers,
          s.commands)) =
      some ([(0, .ok)], some (.timer 1), [1], [.startTimer 1 5, .terminal]) := by
    decide +kernel
  obtain ⟨s, hs, heq⟩ := Option.map_eq_some_iff.mp hrun
  obtain ⟨hreturns, hrest⟩ := Prod.mk.inj heq
  obtain ⟨hwait, hrest⟩ := Prod.mk.inj hrest
  obtain ⟨htimers, hcommands⟩ := Prod.mk.inj hrest
  have hmem : (0, Outcome.ok) ∈ s.returns.map fun r => (r.wait, r.outcome) := by
    rw [hreturns]
    exact List.mem_cons_self
  obtain ⟨r, hr, hr0⟩ := List.mem_map.mp hmem
  obtain ⟨hr0, hok⟩ := Prod.mk.inj hr0
  obtain ⟨wait, hw, hb⟩ := Option.map_eq_some_iff.mp hwait
  refine ⟨s, Lib.Transitions.Reachable.replay (.start rfl) hs, r, hr, hok, wait, 1,
    hr0 ▸ hw, hb, ?_⟩
  rw [htimers, hcommands]
  decide

end OcamlTemporal.Conditions
