import OcamlTemporal.Lib.History
import OcamlTemporal.Sound.Terminal

/-!
# OcamlTemporal.Sound.Patches

**Patch decisions are stable and replay-safe.** A patch ID is decided by its first
call: true when Core has reported the marker before, or when the activation is
not a replay. Later notifications and a changed replay flag do not move the
decision, and a call buffers its marker exactly when the decision is true or the
marker is known.

The log of a run (**`State.patchEvents`**) is observed from outside: the notifications
that are applied, and for each call the reply that its code gets and the commands that
its step buffers. **`PatchView`** is what such a log says about one ID, computed from
the notifications and the calls made. The patch table of an open context is that view
(`PatchLog`), so that every reply can be predicted from the log before it (`PatchOk`).
-/

namespace OcamlTemporal

open Lib (Justified)

variable {P : Program}

/-! ### What is observed of a run -/

/-- What a patch call tells its caller. -/
inductive PatchReply
  -- the reply to `patched`
  | decided (decision : Bool)
  -- the reply to `deprecate_patch`
  | done
  | raised (exn : Exn)
  | other
  deriving DecidableEq

def PatchReply.of {Val : Type} : Resp Val → PatchReply
  | .ok (.bool decision) => decided decision
  | .ok .unit => done
  | .raised exn => raised exn
  | _ => other

/-- What is seen of the patches of a run. -/
inductive PatchEvent
  -- Core's notification for an ID was applied
  | notified (id : String)
  /-- Code of an open context called for an ID: the mode it asked for, whether the
  activation was a replay, the reply it got and the commands that were buffered. -/
  | called (id : String) (mode : PatchMode) (replaying : Bool) (reply : PatchReply)
      (markers : List Command)
  deriving DecidableEq

def Op.patchCall {Val Code : Type} : Op Val Code → Option (String × PatchMode)
  | .patched id => some (id, .active)
  | .deprecatePatch id => some (id, .deprecated)
  | _ => none

namespace State

def patchCalled (s : State P) (memory : P.Mem) (op : Op P.Val P.Code) : List PatchEvent :=
  match op.patchCall, ({ s with memory } : State P).perform op with
  | some (id, mode), .reply s' resp =>
    if s.current && !s.ctx.isSealed then
      [.called id mode s.ctx.activationIsReplaying (.of resp)
        (s'.ctx.commandsRev.take (s'.ctx.commandsRev.length - s.ctx.commandsRev.length))]
    else []
  | _, _ => []

def patchEvents (s : State P) : Task P → List PatchEvent
  | .jobs (.notifyHasPatch id :: _) _ _ =>
    if s.escaped.isNone && s.accepts (.notifyHasPatch id) then [.notified id] else []
  | .run code _ =>
    match P.view code s.memory with
    | (memory, .perform op _) => s.patchCalled memory op
    | _ => []
  | _ => []

end State

/-! ### What a log says about a patch ID -/

/-- Whether Core has reported the marker of an ID, and the mode and decision its
first call fixed. -/
structure PatchView where
  notified : Bool
  first : Option (PatchMode × Bool)

namespace PatchView

def decides (v : PatchView) (replaying : Bool) : Bool :=
  match v.first with
  | some (_, decision) => decision
  | none => v.notified || !replaying

/-- The mode is the one of the first call, if there was one. -/
def Agrees (v : PatchView) (mode : PatchMode) : Prop :=
  ∀ x, v.first = some x → x.1 = mode

/-- The view after one more event. Only the first call of the ID counts. -/
def after (id : String) (v : PatchView) : PatchEvent → PatchView
  | .notified id' => if id' = id then { v with notified := true } else v
  | .called id' mode replaying _ _ =>
    if id' = id then { v with first := some (v.first.getD (mode, v.decides replaying)) } else v

def state : PatchView → Option PatchState
  | ⟨false, none⟩ => none
  | ⟨true, none⟩ => some { decision := true, mode := none, markerReported := true }
  | ⟨notified, some (mode, decision)⟩ =>
    some { decision, mode := some mode, markerReported := notified }

end PatchView

def patchView (log : List PatchEvent) (id : String) : PatchView :=
  log.foldl (PatchView.after id) ⟨false, none⟩

/-- The reply to a successful call: only `patched` returns the decision. -/
def PatchMode.reply : PatchMode → Bool → PatchReply
  | .active, decision => .decided decision
  | .deprecated, _ => .done

def PatchMode.marker (mode : PatchMode) (id : String) : Command :=
  .setPatchMarker id (mode == .deprecated)

/-- What a call may show: the reply and the markers that the view of its ID gives. -/
def PatchOk (before : List PatchEvent) : PatchEvent → Prop
  | .notified _ => True
  | .called id mode replaying reply markers =>
    let v := patchView before id
    (v.Agrees mode → reply = mode.reply (v.decides replaying) ∧
      markers = if v.decides replaying || v.notified then [mode.marker id] else []) ∧
    (¬v.Agrees mode → reply = .raised Context.mixedPatchModes ∧ markers = [])

theorem patchView_snoc (log : List PatchEvent) (e : PatchEvent) (id : String) :
    patchView (log ++ [e]) id = (patchView log id).after id e := by
  simp [patchView]

theorem patchView_notified (log : List PatchEvent) (id : String) :
    (patchView log id).notified = true ↔ .notified id ∈ log := by
  induction log using List.reverseRecOn with
  | nil => simp [patchView]
  | append_singleton log e ih =>
    rw [patchView_snoc, List.mem_append, List.mem_singleton, ← ih]
    cases e with
    | notified id' =>
      by_cases h : id' = id
      · simp [PatchView.after, h]
      · simp [PatchView.after, h, Ne.symm h]
    | called id' mode replaying reply markers =>
      simp only [PatchView.after]
      split <;> simp

def Uncalled (id : String) (log : List PatchEvent) : Prop :=
  ∀ mode replaying reply markers, .called id mode replaying reply markers ∉ log

variable {log before : List PatchEvent} {id : String} {mode : PatchMode} {replaying : Bool}
  {reply : PatchReply} {markers : List Command} {s : State P} {t : Task P}

theorem patchView_first_none (h : Uncalled id log) : (patchView log id).first = none := by
  induction log using List.reverseRecOn with
  | nil => rfl
  | append_singleton log e ih =>
    have hlog : (patchView log id).first = none := ih fun mode r d ms hmem =>
      h mode r d ms (List.mem_append_left _ hmem)
    rw [patchView_snoc]
    cases e with
    | notified id' =>
      simp only [PatchView.after]
      split <;> exact hlog
    | called id' mode replaying reply markers =>
      have hid : id' ≠ id := by
        rintro rfl
        exact h mode replaying reply markers (by simp)
      simpa [PatchView.after, hid] using hlog

theorem patchView_first_append {x : PatchMode × Bool} (h : (patchView log id).first = some x)
    (more : List PatchEvent) : (patchView (log ++ more) id).first = some x := by
  induction more using List.reverseRecOn with
  | nil => rwa [List.append_nil]
  | append_singleton more e ih =>
    rw [← List.append_assoc, patchView_snoc]
    cases e with
    | notified id' =>
      simp only [PatchView.after]
      split <;> exact ih
    | called id' mode replaying reply markers =>
      simp only [PatchView.after]
      split
      · simp [ih]
      · exact ih

/-- The first call of an ID: the events before it, its mode, and whether it ran in a
replay. -/
def FirstCall (log : List PatchEvent) (id : String) (before : List PatchEvent)
    (mode : PatchMode) (replaying : Bool) : Prop :=
  ∃ reply markers after,
    log = before ++ .called id mode replaying reply markers :: after ∧ Uncalled id before

theorem FirstCall.view (h : FirstCall log id before mode replaying) :
    ∃ decision, (decision = true ↔ .notified id ∈ before ∨ replaying = false) ∧
      (patchView log id).first = some (mode, decision) := by
  obtain ⟨reply, markers, after, rfl, hbefore⟩ := h
  have hnone := patchView_first_none hbefore
  refine ⟨(patchView before id).decides replaying, ?_, ?_⟩
  · rw [PatchView.decides, hnone, Bool.or_eq_true, patchView_notified, Bool.not_eq_true']
  · rw [List.append_cons]
    refine patchView_first_append ?_ after
    simp [patchView_snoc, PatchView.after, hnone]

/-- A call finds the view of the first one, or is the first. -/
theorem FirstCall.of_call {before' after : List PatchEvent} {mode₀ : PatchMode} {replaying₀ : Bool}
    (h : FirstCall log id before mode₀ replaying₀)
    (heq : log = before' ++ .called id mode replaying reply markers :: after) :
    FirstCall (before' ++ [.called id mode replaying reply markers]) id before mode₀
      replaying₀ := by
  obtain ⟨reply₀, markers₀, after₀, heq₀, hbefore⟩ := h
  rw [heq₀] at heq
  rw [List.append_cons] at heq
  rcases Lib.split_append heq with ⟨rest, hlog, -⟩ | ⟨rest, hlog, -⟩
  · -- Not before the first call, so it is the first call itself.
    rcases Lib.split_snoc hlog with ⟨rest', hbefore', -⟩ | ⟨rfl, he, -⟩
    · exact absurd (hbefore' ▸ by simp) (hbefore mode replaying reply markers)
    · cases he
      exact ⟨reply, markers, [], rfl, hbefore⟩
  · refine ⟨reply₀, markers₀, rest ++ [.called id mode replaying reply markers], ?_, hbefore⟩
    rw [hlog]
    simp

/-- **The first call of an ID decides for all of them.** -/
theorem FirstCall.decides {before' after : List PatchEvent} {mode₀ : PatchMode}
    {replaying₀ decision : Bool} (hlog : Justified PatchOk log)
    (h : FirstCall log id before mode₀ replaying₀)
    (hdecision : decision = true ↔ .notified id ∈ before ∨ replaying₀ = false)
    (heq : log = before' ++ .called id mode replaying reply markers :: after) :
    (mode = mode₀ → reply = mode.reply decision ∧
      markers = if decision = true ∨ .notified id ∈ before' then [mode.marker id] else []) ∧
    (mode ≠ mode₀ → reply = .raised Context.mixedPatchModes ∧ markers = []) := by
  obtain ⟨decision', hdecision', hview⟩ := (h.of_call heq).view
  obtain rfl : decision = decision' := Bool.eq_iff_iff.mpr (hdecision.trans hdecision'.symm)
  obtain ⟨hagrees, hdisagrees⟩ := hlog _ _ _ heq
  rw [patchView_snoc] at hview
  -- The view before the call has the first call or makes this one the first.
  have hbefore : (patchView before' id).decides replaying = decision ∧
      ((patchView before' id).Agrees mode ↔ mode = mode₀) := by
    cases hfirst : (patchView before' id).first with
    | none =>
      simp only [PatchView.after, if_pos, hfirst, Option.getD_none, Option.some.injEq,
        Prod.mk.injEq] at hview
      exact ⟨hview.2, fun _ => hview.1, fun _ x hx => by rw [hfirst] at hx; cases hx⟩
    | some x =>
      simp only [PatchView.after, if_pos, hfirst, Option.getD_some, Option.some.injEq] at hview
      subst hview
      refine ⟨by rw [PatchView.decides, hfirst], fun ha => (ha _ hfirst).symm, fun hm y hy => ?_⟩
      rw [hfirst] at hy
      cases hy
      exact hm.symm
  rw [hbefore.1] at hagrees
  constructor
  · intro hmode
    obtain ⟨hreply, hmarkers⟩ := hagrees (hbefore.2.mpr hmode)
    refine ⟨hreply, hmarkers.trans ?_⟩
    simp only [Bool.or_eq_true, patchView_notified]
  · exact fun hmode => hdisagrees fun ha => hmode (hbefore.2.mp ha)

/-! ### The patch table of an open context

Only the two patch calls and the notification touch the table, so that it stays the
view of the log. -/

namespace Context

/-- The log is justified, the patch table is its view while the context is open, and
every marker comes from a call. -/
structure PatchLog (log : List PatchEvent) (c : Context P) : Prop where
  justified : Justified PatchOk log
  patches : c.isSealed = false → ∀ id, c.patches id = (patchView log id).state
  markers : ∀ id deprecated, .setPatchMarker id deprecated ∈ c.history →
    ∃ mode replaying reply markers, .called id mode replaying reply markers ∈ log ∧
      .setPatchMarker id deprecated ∈ markers

/-- An update that leaves the patches alone. -/
structure KeepsPatches (c c' : Context P) : Prop where
  patches : c'.isSealed = false → c.isSealed = false ∧ c'.patches = c.patches
  history : ∀ id deprecated, .setPatchMarker id deprecated ∈ c'.history →
    .setPatchMarker id deprecated ∈ c.history

def isPatchMarker : Command → Bool
  | .setPatchMarker _ _ => true
  | _ => false

namespace KeepsPatches

theorem refl (c : Context P) : KeepsPatches c c := ⟨fun h => ⟨h, rfl⟩, fun _ _ => id⟩

variable {c : Context P}

theorem trans {a b : Context P} (hab : KeepsPatches a b) (hbc : KeepsPatches b c) :
    KeepsPatches a c := by
  refine ⟨fun hopen => ?_, fun id deprecated h => hab.history _ _ (hbc.history _ _ h)⟩
  obtain ⟨hb, hpatches⟩ := hbc.patches hopen
  exact ⟨(hab.patches hb).1, hpatches.trans (hab.patches hb).2⟩

theorem same {c' : Context P} (hsealed : c'.isSealed = false → c.isSealed = false)
    (hpatches : c'.isSealed = false → c'.patches = c.patches)
    (hrev : ∀ command ∈ c'.commandsRev, command ∈ c.commandsRev) (hout : c'.outputs = c.outputs) :
    KeepsPatches c c' := by
  refine ⟨fun hopen => ⟨hsealed hopen, hpatches hopen⟩, fun id deprecated hmem => ?_⟩
  simp only [Context.history, hout, List.mem_append, List.mem_reverse] at hmem ⊢
  exact hmem.imp_right (hrev _)

theorem emit {c₁ : Context P} (h : KeepsPatches c c₁) (command : Command) (owner : Option Nat)
    (hm : isPatchMarker command = false) : KeepsPatches c (c₁.emit command owner) := by
  refine h.trans ⟨fun hopen => ⟨hopen, rfl⟩, fun id deprecated hmem => ?_⟩
  by_cases htake : c₁.takes command = true
  · simp only [Context.history, Context.emit, htake, if_pos, List.mem_append, List.mem_reverse,
      List.mem_cons] at hmem ⊢
    rcases hmem with hmem | hmem | hmem
    · exact .inl hmem
    · rw [← hmem] at hm
      cases hm
    · exact .inr hmem
  · simpa [Context.history, Context.emit, htake] using hmem

end KeepsPatches

variable {log : List PatchEvent} {c c' : Context P}

theorem PatchLog.keeps (hc : PatchLog log c) (h : KeepsPatches c c') : PatchLog log c' := by
  refine ⟨hc.justified, fun hsealed id => ?_, fun id deprecated hmem =>
    hc.markers id deprecated (h.history id deprecated hmem)⟩
  obtain ⟨hopen, hpatches⟩ := h.patches hsealed
  rw [hpatches, hc.patches hopen id]

/-- One more event keeps the calls behind the markers. -/
theorem PatchLog.markers_snoc (hc : PatchLog log c) (e : PatchEvent) (id : String)
    (deprecated : Bool) (h : .setPatchMarker id deprecated ∈ c.history) :
    ∃ mode replaying reply markers, .called id mode replaying reply markers ∈ log ++ [e] ∧
      .setPatchMarker id deprecated ∈ markers := by
  obtain ⟨mode, replaying, reply, markers, hcall, hmark⟩ := hc.markers id deprecated h
  exact ⟨mode, replaying, reply, markers, List.mem_append_left _ hcall, hmark⟩

theorem PatchLog.notifyHasPatch (hc : PatchLog log c) (patchId : String) :
    PatchLog (log ++ [.notified patchId]) (c.notifyHasPatch patchId) := by
  refine ⟨hc.justified.snoc trivial, fun hsealed id => ?_, hc.markers_snoc _⟩
  simp only [Context.notifyHasPatch, patchView_snoc, PatchView.after]
  have hpatches := hc.patches hsealed
  by_cases hid : patchId = id
  · subst hid
    rw [Function.update_self, hpatches patchId, if_pos rfl]
    cases hv : patchView log patchId with
    | mk notified first => cases first <;> cases notified <;> rfl
  · rw [Function.update_of_ne (Ne.symm hid), if_neg hid]
    exact hpatches id

/-- The entry a call finds, fresh or not, is the view of its ID. -/
theorem PatchLog.patchState (hc : PatchLog log c) (hsealed : c.isSealed = false) (id : String) :
    c.patchState id =
      { decision := (patchView log id).decides c.activationIsReplaying
        mode := (patchView log id).first.map Prod.fst
        markerReported := (patchView log id).notified } := by
  rw [Context.patchState, hc.patches hsealed id]
  cases hv : patchView log id with
  | mk notified first => cases first <;> cases notified <;> rfl

theorem agrees_iff (v : PatchView) (mode : PatchMode) :
    v.Agrees mode ↔ v.first.map Prod.fst = none ∨ v.first.map Prod.fst = some mode := by
  cases hv : v.first <;> simp [PatchView.Agrees, hv]

/-- What a call answers and buffers, by the view of its ID. -/
theorem PatchLog.callPatchApi_eq (hc : PatchLog log c) (hsealed : c.isSealed = false) (id : String)
    (mode : PatchMode) :
    ((patchView log id).Agrees mode → ∃ patches markers trace,
      markers = (if (patchView log id).decides c.activationIsReplaying ||
        (patchView log id).notified then [mode.marker id] else []) ∧
      patches = Function.update c.patches id (some { c.patchState id with mode := some mode }) ∧
      c.callPatchApi id mode =
        ({ c with patches, commandsRev := markers ++ c.commandsRev, trace },
          .ok ((patchView log id).decides c.activationIsReplaying))) ∧
    (¬(patchView log id).Agrees mode →
      c.callPatchApi id mode = (c, .error mixedPatchModes)) := by
  rw [agrees_iff, Context.callPatchApi, hsealed]
  simp only [Bool.false_eq_true, if_false, hc.patchState hsealed id]
  constructor
  · intro hmode
    rw [if_pos hmode]
    exact ⟨_, _, _, rfl, rfl, rfl⟩
  · intro hmode
    rw [if_neg hmode]

theorem PatchLog.called (hc : PatchLog log c) (hsealed : c.isSealed = false) {id : String}
    {mode : PatchMode} (hmode : (patchView log id).Agrees mode) {reply : PatchReply}
    {markers : List Command}
    (hok : PatchOk log (.called id mode c.activationIsReplaying reply markers))
    (hpatches : c'.patches = Function.update c.patches id
      (some { c.patchState id with mode := some mode }))
    (hhistory : c'.history = c.history ++ markers.reverse) :
    PatchLog (log ++ [.called id mode c.activationIsReplaying reply markers]) c' := by
  refine ⟨hc.justified.snoc hok, fun _ id' => ?_, fun id' deprecated hmem => ?_⟩
  · simp only [hpatches, hc.patchState hsealed id, patchView_snoc, PatchView.after]
    by_cases hid : id = id'
    · subst hid
      rw [Function.update_self, if_pos rfl]
      cases hv : patchView log id with
      | mk notified first =>
        cases hf : first with
        | none => cases notified <;> rfl
        | some x =>
          have hm : x.1 = mode := hmode x (by rw [hv, hf])
          cases notified <;> simp [PatchView.state, PatchView.decides, ← hm]
    · rw [Function.update_of_ne (Ne.symm hid), if_neg hid]
      exact hc.patches hsealed id'
  · rw [hhistory] at hmem
    rcases List.mem_append.mp hmem with h | h
    · exact hc.markers_snoc _ id' deprecated h
    · have hmark := List.mem_reverse.mp h
      obtain rfl : id' = id := by
        rw [(hok.1 hmode).2, PatchMode.marker] at hmark
        split at hmark <;> simp_all
      exact ⟨mode, _, reply, markers, List.mem_append_right _ List.mem_cons_self, hmark⟩

theorem PatchLog.refused (hc : PatchLog log c) {id : String} {mode : PatchMode}
    (hmode : ¬(patchView log id).Agrees mode) {replaying : Bool} {reply : PatchReply}
    {markers : List Command} (hok : PatchOk log (.called id mode replaying reply markers)) :
    PatchLog (log ++ [.called id mode replaying reply markers]) c := by
  refine ⟨hc.justified.snoc hok, fun hsealed id' => ?_, hc.markers_snoc _⟩
  rw [hc.patches hsealed id', patchView_snoc]
  congr 1
  simp only [PatchView.after]
  split
  · next hid =>
    -- A refusal needs a call that fixed the other mode, which stays the first.
    subst hid
    cases hv : patchView log id with
    | mk notified first =>
      cases hf : first with
      | none =>
        refine absurd (fun x hx => ?_) hmode
        rw [hv, hf] at hx
        cases hx
      | some x => rfl
  · rfl

/-! ### Everything else keeps the patches -/

theorem leaveBackoff_keepsPatches (c : Context P) (seq : Nat) (la : LocalActivity) :
    KeepsPatches c (c.leaveBackoff seq la) := by
  unfold leaveBackoff
  cases la.backoff with
  | timer timerSeq =>
    have hstop : KeepsPatches c { c with timers := Function.update c.timers timerSeq none } :=
      .same id (fun _ => rfl) (fun _ => id) rfl
    exact (hstop.emit (.cancelTimer timerSeq) (some seq) rfl).trans
      (.same id (fun _ => rfl) (fun _ => id) rfl)
  | idle | timerQueued | retryQueued => exact .same id (fun _ => rfl) (fun _ => id) rfl

theorem Act.keepsPatches (h : Act c c') : KeepsPatches c c' := by
  have hsaved {saved : Context P} (hsealed : saved.isSealed = c.isSealed)
      (hpatches : saved.patches = c.patches) (hrev : saved.commandsRev = c.commandsRev)
      (hout : saved.outputs = c.outputs) : KeepsPatches c saved :=
    .same (fun h => hsealed ▸ h) (fun _ => hpatches) (fun _ h => hrev ▸ h) hout
  cases h with
  | startTimer | scheduleActivity | scheduleLocalActivity | startChild | cancelTimer =>
    refine .emit ?_ _ _ rfl
    exact hsaved rfl rfl rfl rfl
  | startExternal operation f command h =>
    have hm : isPatchMarker command = false := by cases command <;> first | rfl | cases h
    refine .emit ?_ _ _ hm
    exact hsaved rfl rfl rfl rfl
  | requestCancel =>
    refine .emit ?_ _ _ (by split <;> rfl)
    exact hsaved rfl rfl rfl rfl
  | @cancelBackoff seq handle la =>
    have hmarked : KeepsPatches c (c.markCancelled seq handle) :=
      .same id (fun _ => rfl) (fun _ => id) rfl
    exact hmarked.trans (.trans (leaveBackoff_keepsPatches _ seq la)
      (.same id (fun _ => rfl) (fun _ => id) rfl))
  | leaveBackoff => exact c.leaveBackoff_keepsPatches _ _
  | cancelChild reason =>
    exact .trans (.emit (.refl c) (.cancelChildWorkflow _ reason) none rfl)
      (.same id (fun _ => rfl) (fun _ => id) rfl)
  | emit command h =>
    refine .emit (.refl c) _ _ ?_
    cases command <;> first | rfl | cases h
  | _ => exact hsaved rfl rfl rfl rfl

theorem close_keepsPatches (h : KeepsPatches c c') : KeepsPatches c c'.close :=
  h.trans (.same (fun hopen => by cases hopen) (fun hopen => by cases hopen) (fun _ => id) rfl)

theorem emitTerminal_keepsPatches (c : Context P) {command : Command}
    (h : command.isTerminal = true) : KeepsPatches c (c.emit command) := by
  refine .emit (.refl c) command none ?_
  cases command <;> first | rfl | cases h

theorem takeCommands_keepsPatches (c : Context P) : KeepsPatches c c.takeCommands :=
  ⟨fun hopen => ⟨hopen, rfl⟩, fun id deprecated h => by
    simpa [history, Context.takeCommands] using h⟩

end Context

open Context (KeepsPatches)

theorem State.Change.keepsPatches {s' : State P} (h : State.Change s s') :
    KeepsPatches s.ctx s'.ctx := by
  cases h with
  | act h =>
    cases h with
    | ctx h => exact h.keepsPatches
    | acceptBackoff => exact .same id (fun _ => rfl) (fun _ => id) rfl
    | sched | other => exact .refl _
  | terminate command h =>
    exact (s.ctx.emitTerminal_keepsPatches h).trans
      (.same (fun hopen => by cases hopen) (fun hopen => by cases hopen) (fun _ => id) rfl)
  | takeCommands => exact s.ctx.takeCommands_keepsPatches
  | discardCommands =>
    exact .same id (fun _ => rfl) (fun _ h => by cases h) rfl
  | returnNothing =>
    exact ⟨fun hopen => ⟨hopen, rfl⟩, fun id deprecated h => by simpa [Context.history] using h⟩
  | clearTables h =>
    refine .same (fun hopen => ?_) (fun hopen => ?_) (fun _ => id) rfl <;>
    · rw [show s.ctx.clearTables.isSealed = s.ctx.isSealed from rfl, h] at hopen
      cases hopen
  | setReplaying => exact .same id (fun _ => rfl) (fun _ => id) rfl

theorem Changes.keepsPatches {s' : State P} (h : Changes s s') : KeepsPatches s.ctx s'.ctx := by
  induction h with
  | refl => exact .refl _
  | tail _ hbc ih => exact ih.trans hbc.keepsPatches

theorem Steps.keepsPatches {role : Role} {r : Outcome P} (h : Steps role s r) :
    KeepsPatches s.ctx r.2.ctx := by
  cases h with
  | calm h => exact h.keepsPatches
  | call h => exact h.keepsPatches
  | answer h _ hanswer =>
    refine h.keepsPatches.trans ?_
    cases hanswer <;> exact .emit (.refl _) _ _ rfl
  | accept h =>
    exact h.keepsPatches.trans (.trans (.emit (.refl _) _ none rfl)
      (.same id (fun _ => rfl) (fun _ => id) rfl))
  | @ended m e s' rest h hend hafter =>
    have hclose : KeepsPatches m.ctx e.ctx.close := by
      refine Context.close_keepsPatches ?_
      cases hend with
      | emitTerminal command h => exact m.ctx.emitTerminal_keepsPatches h
      | shutdown => exact .refl _
      | finalize => exact m.ctx.takeCommands_keepsPatches
    have hshut : e.contextShutdown.2.ctx = e.ctx.close := by
      unfold State.contextShutdown
      dsimp only
      split <;> rfl
    exact (h.keepsPatches.trans (hshut ▸ hclose)).trans hafter.keepsPatches

/-! ### Logged runs

A call is observed as the table answers it; all other steps leave the table alone and
are not observed. -/

namespace State

variable {s : State P} {op : Op P.Val P.Code}

theorem perform_patchCall {id : String} {mode : PatchMode} (hop : op.patchCall = some (id, mode))
    (hcurrent : s.current = true) :
    ∃ resp, s.perform op = .reply { s with ctx := (s.ctx.callPatchApi id mode).1 } resp ∧
      (∀ d, (s.ctx.callPatchApi id mode).2 = .ok d → PatchReply.of resp = mode.reply d) ∧
      (∀ x, (s.ctx.callPatchApi id mode).2 = .error x → PatchReply.of resp = .raised x) := by
  cases op with
  | patched id' | deprecatePatch id' =>
    cases hop
    refine ⟨_, by simp only [perform, Performed.orRaise, hcurrent, if_true]; rfl, ?_, ?_⟩
    · intro d hd
      simp only [Performed.ofExcept, hd]
      rfl
    · intro x hx
      simp only [Performed.ofExcept, hx]
      rfl
  | _ => cases hop

/-- Outside the workflow and after its end a patch call changes nothing. -/
theorem perform_patchCall_closed {id : String} {mode : PatchMode}
    (hop : op.patchCall = some (id, mode)) (hclosed : (s.current && !s.ctx.isSealed) = false) :
    ∃ s' resp, s.perform op = .reply s' resp ∧ s'.ctx = s.ctx := by
  by_cases hcurrent : s.current = true
  · obtain ⟨resp, hperform, -⟩ := perform_patchCall hop hcurrent
    refine ⟨_, resp, hperform, ?_⟩
    rw [hcurrent, Bool.true_and, Bool.not_eq_false'] at hclosed
    simp [Context.callPatchApi, hclosed]
  · cases op with
    | patched id' | deprecatePatch id' =>
      exact ⟨s, _, by simp only [perform, Performed.orRaise, hcurrent]; rfl, rfl⟩
    | _ => cases hop

theorem patchEvents_of_performs {t : Task P} {k : Resp P.Val → P.Code} {frame : Frame P}
    (h : t.Performs s op k frame) :
    ∃ memory, s.step t = interact { s with memory } frame (.perform op k) ∧
      s.patchEvents t = s.patchCalled memory op := by
  obtain ⟨code, memory, rfl, hview⟩ := h
  exact ⟨memory, by simp only [step, runCode, hview], by simp only [patchEvents, hview]⟩

end State

namespace Context

/-- A call in an open context is observed as the log predicts it. -/
theorem PatchLog.patchCalled {log : List PatchEvent} {s : State P} (hlog : PatchLog log s.ctx)
    {t : Task P} {op : Op P.Val P.Code} {k : Resp P.Val → P.Code} {frame : Frame P} {id : String}
    {mode : PatchMode} (h : t.Performs s op k frame) (hop : op.patchCall = some (id, mode))
    (hcurrent : s.current = true) (hsealed : s.ctx.isSealed = false) :
    ∃ resp markers,
      s.patchEvents t = [.called id mode s.ctx.activationIsReplaying (.of resp) markers] ∧
      (s.step t).1 = [.run (k resp) frame] ∧
      (s.step t).2.ctx.commandsRev = markers ++ s.ctx.commandsRev ∧
      PatchLog (log ++ [.called id mode s.ctx.activationIsReplaying (.of resp) markers])
        (s.step t).2.ctx := by
  obtain ⟨memory, hstep, hevents⟩ := State.patchEvents_of_performs h
  obtain ⟨resp, hperform, hok, herror⟩ :=
    State.perform_patchCall (s := { s with memory }) hop hcurrent
  rw [hevents, hstep]
  simp only [State.patchCalled, State.interact, hop, hperform, hcurrent, hsealed, Bool.not_false,
    Bool.and_self, if_true]
  obtain ⟨hagrees, hdisagrees⟩ := hlog.callPatchApi_eq hsealed id mode
  by_cases hmode : (patchView log id).Agrees mode
  · obtain ⟨patches, markers, trace, hmarkers, hpatches, heq⟩ := hagrees hmode
    rw [heq] at hok
    have hreply := hok _ rfl
    refine ⟨resp, markers, ?_, rfl, by rw [heq], ?_⟩
    · simp [heq]
    · refine hlog.called hsealed hmode ⟨fun _ => ⟨hreply, hmarkers⟩, fun h => absurd hmode h⟩ ?_ ?_
      · rw [heq, hpatches]
      · rw [heq]
        simp [history]
  · have heq := hdisagrees hmode
    rw [heq] at herror
    refine ⟨resp, [], by simp [heq], rfl, by rw [heq]; rfl, ?_⟩
    rw [heq]
    exact hlog.refused hmode ⟨fun h => absurd h hmode, fun _ => ⟨herror _ rfl, rfl⟩⟩

end Context

theorem State.Turn.keepsPatches {r : Outcome P} (h : State.Turn s t r)
    (hjobs : ∀ id js wasStarted queryOnly,
      t ≠ .jobs (.notifyHasPatch id :: js) wasStarted queryOnly)
    (hcode : ∀ op k frame, t.Performs s op k frame → op.patchCall = none) :
    KeepsPatches s.ctx r.2.ctx := by
  cases h with
  | steps h => exact h.keepsPatches
  | @own code frame op k memory s' resp hview hop hreply =>
    have hnone := hcode op k frame ⟨code, memory, rfl, hview⟩
    cases op with
    | subscribe | unsubscribe =>
      cases hreply
      exact .refl _
    | patched | deprecatePatch => cases hnone
    | _ => cases hop
  | patch => exact absurd rfl (hjobs _ _ _ _)
  | fired h =>
    cases h with
    | retry => exact .same id (fun _ => rfl) (fun _ => id) rfl
  | dispatch _ _ h => exact h.keepsPatches
  | retried _ h =>
    cases h with
    | startBackoffTimer | retryLocalActivity =>
      refine .emit ?_ _ _ rfl
      exact .same id (fun _ => rfl) (fun _ => id) rfl
    | left => exact .refl _
  | beginRun h => exact h.keepsPatches
  | endRun h => exact h.keepsPatches
  | deliver | suspend | teardown | release => exact .refl _

/-- **A step keeps the log and the table together.** -/
theorem Context.PatchLog.step {ts : List (Task P)}
    (hwf : Config.WellFormed (⟨t :: ts, s⟩ : Config P)) (h : PatchLog log s.ctx) :
    PatchLog (log ++ s.patchEvents t) (s.step t).2.ctx := by
  by_cases hcall : ∃ op k frame call, t.Performs s op k frame ∧ op.patchCall = some call
  · obtain ⟨op, k, frame, ⟨id, mode⟩, hperforms, hop⟩ := hcall
    cases hopen : s.current && !s.ctx.isSealed with
    | true =>
      rw [Bool.and_eq_true, Bool.not_eq_true'] at hopen
      obtain ⟨resp, markers, hevents, -, -, hlog⟩ :=
        h.patchCalled hperforms hop hopen.1 hopen.2
      rwa [hevents]
    | false =>
      obtain ⟨memory, hstep, hevents⟩ := State.patchEvents_of_performs hperforms
      obtain ⟨s', resp, hperform, hctx⟩ :=
        State.perform_patchCall_closed (s := { s with memory }) hop hopen
      have hnone : s.patchCalled memory op = [] := by
        simp only [State.patchCalled, hop, hperform, hopen, Bool.false_eq_true, if_false]
      rw [hevents, hnone, List.append_nil, hstep]
      simpa only [State.interact, hperform, hctx] using h
  · have hcode (op : Op P.Val P.Code) (k : Resp P.Val → P.Code) (frame : Frame P)
        (hperforms : t.Performs s op k frame) : op.patchCall = none :=
      Option.eq_none_iff_forall_ne_some.mpr fun call hop =>
        hcall ⟨op, k, frame, call, hperforms, hop⟩
    by_cases hjobs : ∃ id js wasStarted queryOnly,
        t = .jobs (.notifyHasPatch id :: js) wasStarted queryOnly
    · obtain ⟨id, js, wasStarted, queryOnly, rfl⟩ := hjobs
      simp only [State.patchEvents, State.step]
      cases hescaped : s.escaped with
      | some x => simpa using h
      | none =>
        cases haccepts : s.accepts (.notifyHasPatch id) with
        | true => simpa [State.processJob] using h.notifyHasPatch id
        | false => simpa using h
    · have hkeeps := hwf.turn.keepsPatches
        (fun id js wasStarted queryOnly heq => hjobs ⟨id, js, wasStarted, queryOnly, heq⟩) hcode
      have hnone : s.patchEvents t = [] := by
        cases t with
        | run code frame =>
          simp only [State.patchEvents]
          rcases hview : P.view code s.memory with ⟨memory, node⟩
          cases node with
          | perform op k =>
            simp only [State.patchCalled, hcode op k frame ⟨code, memory, rfl, hview⟩]
          | ret | raise => rfl
        | jobs js wasStarted queryOnly =>
          cases js with
          | nil => rfl
          | cons job js =>
            cases job with
            | notifyHasPatch id => exact absurd ⟨id, js, wasStarted, queryOnly, rfl⟩ hjobs
            | _ => rfl
        | _ => rfl
      rw [hnone, List.append_nil]
      exact h.keeps hkeeps

theorem Logged.patchLog {c : Config P} (hc : Logged State.patchEvents log c) :
    c.store.ctx.PatchLog log := by
  induction hc with
  | start =>
    refine ⟨Justified.nil, fun _ _ => rfl, ?_⟩
    simp [Context.history, State.start, Context.create]
  | @input log s i hs ih =>
    rcases i.apply_steps s hs.reachable.wellFormed.running with ⟨js, -, h⟩ | h
    · exact ih.keeps h.keepsPatches
    · exact ih.keeps h.keepsPatches
  | step hs ih => exact ih.step hs.reachable.wellFormed

/-- What is seen of a call is what its code and the command buffer get. -/
theorem Logged.called {ts : List (Task P)} (hc : Logged State.patchEvents log ⟨t :: ts, s⟩)
    (h : .called id mode replaying reply markers ∈ s.patchEvents t) :
    ∃ op k frame resp, op.patchCall = some (id, mode) ∧ t.Performs s op k frame ∧
      (s.step t).1 = [.run (k resp) frame] ∧ PatchReply.of resp = reply ∧
      (s.step t).2.ctx.commandsRev = markers ++ s.ctx.commandsRev := by
  have hfound : ∃ op k frame, op.patchCall = some (id, mode) ∧ t.Performs s op k frame ∧
      s.current = true ∧ s.ctx.isSealed = false := by
    cases t with
    | run code frame =>
      simp only [State.patchEvents] at h
      rcases hview : P.view code s.memory with ⟨memory, node⟩
      rw [hview] at h
      cases node with
      | perform op k =>
        simp only [State.patchCalled] at h
        split at h
        · next id' mode' s' resp hop _ =>
          split at h
          · next hopen =>
            rw [Bool.and_eq_true, Bool.not_eq_true'] at hopen
            cases List.mem_singleton.mp h
            exact ⟨op, k, frame, hop, ⟨code, memory, rfl, hview⟩, hopen⟩
          · cases h
        · cases h
      | ret | raise => cases h
    | jobs js wasStarted queryOnly =>
      cases js with
      | nil => cases h
      | cons job js =>
        cases job with
        | notifyHasPatch id' =>
          simp only [State.patchEvents] at h
          split at h <;> simp at h
        | _ => cases h
    | _ => cases h
  obtain ⟨op, k, frame, hop, hperforms, hcurrent, hsealed⟩ := hfound
  obtain ⟨resp, markers', hevents, hcalls, hbuffer, -⟩ :=
    hc.patchLog.patchCalled hperforms hop hcurrent hsealed
  rw [hevents] at h
  cases List.mem_singleton.mp h
  exact ⟨op, k, frame, resp, hop, hperforms, hcalls, rfl, hbuffer⟩

/-! ### Live runs and replays -/

def patchCalls (log : List PatchEvent) : List (String × PatchMode) :=
  log.filterMap fun
    | .called id mode _ _ _ => some (id, mode)
    | .notified _ => none

/-- The replies to the patch calls of a log, each with the markers of the call. -/
def patchAnswers (log : List PatchEvent) : List (PatchReply × List Command) :=
  log.filterMap fun
    | .called _ _ _ reply markers => some (reply, markers)
    | .notified _ => none

/-- The answer to a call after earlier ones when every decision is true. -/
def patchAnswer (earlier : List (String × PatchMode)) (call : String × PatchMode) :
    PatchReply × List Command :=
  if ((earlier.find? (·.1 = call.1)).map Prod.snd).getD call.2 = call.2 then
    (call.2.reply true, [call.2.marker call.1])
  else (.raised Context.mixedPatchModes, [])

/-- The answers to a list of calls, given the earlier ones. -/
def answerAll (earlier : List (String × PatchMode)) :
    List (String × PatchMode) → List (PatchReply × List Command)
  | [] => []
  | call :: calls => patchAnswer earlier call :: answerAll (earlier ++ [call]) calls

theorem answerAll_snoc (earlier calls : List (String × PatchMode)) (call : String × PatchMode) :
    answerAll earlier (calls ++ [call]) =
      answerAll earlier calls ++ [patchAnswer (earlier ++ calls) call] := by
  induction calls generalizing earlier with
  | nil => simp [answerAll]
  | cons call' calls ih => simp [answerAll, ih]

/-- Every first call found a notification or ran live. -/
def AllTrue (log : List PatchEvent) : Prop :=
  ∀ id before mode replaying, FirstCall log id before mode replaying →
    .notified id ∈ before ∨ replaying = false

theorem FirstCall.append (h : FirstCall log id before mode replaying) (more : List PatchEvent) :
    FirstCall (log ++ more) id before mode replaying := by
  obtain ⟨reply, markers, after, rfl, hbefore⟩ := h
  exact ⟨reply, markers, after ++ more, by simp, hbefore⟩

theorem exists_firstCall (h : ¬Uncalled id log) :
    ∃ before mode replaying, FirstCall log id before mode replaying := by
  induction log using List.reverseRecOn with
  | nil => exact absurd (fun _ _ _ _ => List.not_mem_nil) h
  | append_singleton log e ih =>
    by_cases hlog : Uncalled id log
    · -- The newest event is the only call.
      simp only [Uncalled, not_forall, not_not] at h
      obtain ⟨mode, replaying, reply, markers, hmem⟩ := h
      rcases List.mem_append.mp hmem with hmem | hmem
      · exact absurd hmem (hlog mode replaying reply markers)
      · rw [← List.mem_singleton.mp hmem]
        exact ⟨log, mode, replaying, reply, markers, [], rfl, hlog⟩
    · obtain ⟨before, mode, replaying, hfirst⟩ := ih hlog
      exact ⟨before, mode, replaying, hfirst.append [e]⟩

theorem find?_patchCalls (h : FirstCall log id before mode replaying) :
    (patchCalls log).find? (·.1 = id) = some (id, mode) := by
  obtain ⟨reply, markers, after, rfl, hbefore⟩ := h
  rw [patchCalls, List.filterMap_append, List.find?_append, List.filterMap_cons]
  have hnone : ((before.filterMap fun
      | .called id mode _ _ _ => some (id, mode)
      | .notified _ => none).find? (·.1 = id)) = none := by
    refine List.find?_eq_none.mpr fun call hcall => ?_
    obtain ⟨e, he, hsome⟩ := List.mem_filterMap.mp hcall
    cases e with
    | notified => cases hsome
    | called id' mode' replaying' reply' markers' =>
      cases hsome
      intro hid
      rw [decide_eq_true_eq] at hid
      exact hbefore mode' replaying' reply' markers' (hid ▸ he)
  rw [hnone]
  simp

/-- With every decision true, the answers depend on the calls alone. -/
theorem patchAnswers_eq (h : Justified PatchOk log) (htrue : AllTrue log) :
    patchAnswers log = answerAll [] (patchCalls log) := by
  induction log using List.reverseRecOn with
  | nil => rfl
  | append_singleton log e ih =>
    have ih := ih h.of_append fun id before mode replaying hfirst =>
      htrue id before mode replaying (hfirst.append [e])
    cases e with
    | notified id => simpa [patchAnswers, patchCalls] using ih
    | called id mode replaying reply markers =>
      -- The first call of the ID is in the log before, or it is this one.
      have hcalled : ¬Uncalled id (log ++ [.called id mode replaying reply markers]) :=
        fun hun => hun mode replaying reply markers (by simp)
      obtain ⟨before, mode₀, replaying₀, hfirst⟩ := exists_firstCall hcalled
      have hdecision : true = true ↔ .notified id ∈ before ∨ replaying₀ = false :=
        ⟨fun _ => htrue _ _ _ _ hfirst, fun _ => rfl⟩
      have hdecides := hfirst.decides h hdecision rfl
      have hfind := find?_patchCalls hfirst
      rw [patchCalls, List.filterMap_append, List.find?_append, ← patchCalls] at hfind
      have hmode : (((patchCalls log).find? (·.1 = id)).map Prod.snd).getD mode = mode₀ := by
        cases hold : (patchCalls log).find? (·.1 = id) with
        | none =>
          rw [hold] at hfind
          simp at hfind
          simp [hfind]
        | some x =>
          rw [hold] at hfind
          simp at hfind
          simp [hfind]
      rw [patchAnswers, patchCalls, List.filterMap_append, List.filterMap_append, ← patchAnswers,
        ← patchCalls, ih]
      simp only [List.filterMap_cons, List.filterMap_nil, answerAll_snoc, List.nil_append,
        patchAnswer, hmode]
      by_cases hm : mode = mode₀
      · obtain ⟨hreply, hmarkers⟩ := hdecides.1 hm
        simp [hm, hreply, hmarkers]
      · obtain ⟨hreply, hmarkers⟩ := hdecides.2 hm
        simp [Ne.symm hm, hreply, hmarkers]

/-- All calls ran outside a replay. -/
def Live (log : List PatchEvent) : Prop :=
  ∀ id mode replaying reply markers,
    .called id mode replaying reply markers ∈ log → replaying = false

/-- Every ID that buffered a marker in the first log is notified before its first
call in the second. -/
def Notified (live replay : List PatchEvent) : Prop :=
  ∀ id mode replaying reply markers,
    .called id mode replaying reply markers ∈ live → markers ≠ [] →
    ∀ before mode' replaying', FirstCall replay id before mode' replaying' →
      .notified id ∈ before

/-- A replay of a live run gives its replies and markers. -/
theorem patchAnswers_replay {live replay : List PatchEvent} (hl : Justified PatchOk live)
    (hr : Justified PatchOk replay) (hlive : Live live)
    (hcalls : patchCalls replay = patchCalls live) (hnotified : Notified live replay) :
    patchAnswers replay = patchAnswers live := by
  have hltrue : AllTrue live := fun id before mode replaying ⟨reply, markers, after, heq, _⟩ =>
    .inr (hlive id mode replaying reply markers (by simp [heq]))
  have hrtrue : AllTrue replay := by
    intro id before mode replaying hfirst
    have hfind := find?_patchCalls hfirst
    rw [hcalls] at hfind
    obtain ⟨e, he, hsome⟩ := List.mem_filterMap.mp (List.mem_of_find?_eq_some hfind)
    cases e with
    | notified => cases hsome
    | called id' mode' replaying' reply' markers' =>
      cases hsome
      -- The first live call of the ID has buffered a marker.
      have hcalled : ¬Uncalled id live := fun hun => hun _ _ _ _ he
      obtain ⟨before₀, mode₀, replaying₀, hfirst₀⟩ := exists_firstCall hcalled
      have ⟨reply₀, markers₀, after₀, heq₀, _⟩ := hfirst₀
      have hdecision : true = true ↔ .notified id ∈ before₀ ∨ replaying₀ = false :=
        ⟨fun _ => hltrue _ _ _ _ hfirst₀, fun _ => rfl⟩
      have hdecides := hfirst₀.decides hl hdecision heq₀
      refine .inl (hnotified id mode₀ replaying₀ reply₀ markers₀ (by simp [heq₀]) ?_ before mode
        replaying hfirst)
      rw [(hdecides.1 rfl).2, if_pos (.inl rfl)]
      exact List.cons_ne_nil _ _
  rw [patchAnswers_eq hr hrtrue, patchAnswers_eq hl hltrue, hcalls]

/-- **Patch decisions are stable and replay-safe.** Of every run with its log: what the
log has of a call is the reply that its code goes on with and what its step adds to the
command buffer; the first call of an ID decides for all of them, by the notifications
before it and by its activation; a call in the mode of the first gets that decision, and
its marker is buffered exactly when the decision is true or a notification has arrived,
while a call in the other mode raises; the markers of one ID carry one flag; and a run
that makes the calls of a live run, each marked ID notified before its first call, gets
the same replies and markers. -/
theorem patches_stable {c : Config P} (hc : Logged State.patchEvents log c) :
    (∀ t ts id mode replaying reply markers, c.stack = t :: ts →
      .called id mode replaying reply markers ∈ c.store.patchEvents t →
      ∃ op k frame resp, op.patchCall = some (id, mode) ∧ t.Performs c.store op k frame ∧
        (c.store.step t).1 = [.run (k resp) frame] ∧ PatchReply.of resp = reply ∧
        (c.store.step t).2.ctx.commandsRev = markers ++ c.store.ctx.commandsRev) ∧
    (∀ id before mode₀ replaying₀, FirstCall log id before mode₀ replaying₀ →
      ∃ decision, (decision = true ↔ .notified id ∈ before ∨ replaying₀ = false) ∧
        ∀ before' mode replaying reply markers after,
          log = before' ++ .called id mode replaying reply markers :: after →
          (mode = mode₀ → reply = mode.reply decision ∧
            markers = if decision = true ∨ .notified id ∈ before' then [mode.marker id] else []) ∧
          (mode ≠ mode₀ → reply = .raised Context.mixedPatchModes ∧ markers = [])) ∧
    (∀ id deprecated deprecated', .setPatchMarker id deprecated ∈ c.store.ctx.history →
      .setPatchMarker id deprecated' ∈ c.store.ctx.history → deprecated = deprecated') ∧
    (∀ (P' : Program) (log' : List PatchEvent) (c' : Config P'),
      Logged State.patchEvents log' c' → Live log → patchCalls log' = patchCalls log →
      Notified log log' → patchAnswers log' = patchAnswers log) := by
  have hlog := hc.patchLog
  refine ⟨fun t ts id mode replaying reply markers hstack h => ?_,
    fun id before mode₀ replaying₀ hfirst => ?_, fun id deprecated deprecated' hmark hmark' => ?_,
    fun P' log' c' hc' hlive hcalls hnotified =>
      patchAnswers_replay hlog.justified hc'.patchLog.justified hlive hcalls hnotified⟩
  · obtain ⟨stack, s⟩ := c
    cases hstack
    exact hc.called h
  · obtain ⟨decision, hdecision, -⟩ := hfirst.view
    exact ⟨decision, hdecision, fun before' mode replaying reply markers after heq =>
      hfirst.decides hlog.justified hdecision heq⟩
  · -- Each marker comes from a call, and the calls that succeed use one mode.
    have hflag {deprecated : Bool} (h : .setPatchMarker id deprecated ∈ c.store.ctx.history)
        {before : List PatchEvent} {mode₀ : PatchMode} {replaying₀ : Bool}
        (hfirst : FirstCall log id before mode₀ replaying₀) :
        deprecated = (mode₀ == .deprecated) := by
      obtain ⟨mode, replaying, reply, markers, hcall, hmem⟩ := hlog.markers id deprecated h
      obtain ⟨before', after, heq⟩ := List.append_of_mem hcall
      obtain ⟨decision, hdecision, -⟩ := hfirst.view
      obtain ⟨hsame, hother⟩ := hfirst.decides hlog.justified hdecision heq
      by_cases hmode : mode = mode₀
      · rw [(hsame hmode).2, hmode, PatchMode.marker] at hmem
        split at hmem <;> simp_all
      · rw [(hother hmode).2] at hmem
        cases hmem
    obtain ⟨mode, replaying, reply, markers, hcall, -⟩ := hlog.markers id deprecated hmark
    have hcalled : ¬Uncalled id log := fun hun => hun mode replaying reply markers hcall
    obtain ⟨before, mode₀, replaying₀, hfirst⟩ := exists_firstCall hcalled
    rw [hflag hmark hfirst, hflag hmark' hfirst]

/-- A workflow that checks a patch and then deprecates it, which is refused. -/
def patcher : Program :=
  Script.program (.then_ (.patched "p") (.then_ (.deprecatePatch "p") .done))
    Script.unregistered Script.unregistered Script.unregistered

/-- What is seen of the workflow run through a list of inputs. -/
def patcherLog (inputs : List Input) : List PatchEvent :=
  ((replayLogged State.patchEvents 20 inputs [] (State.start patcher)).map Prod.fst).getD []

def livePatcher : List PatchEvent := patcherLog [.activate [.startWorkflow]]

def replayedPatcher : List PatchEvent :=
  patcherLog [.setActivationIsReplaying true, .activate [.notifyHasPatch "p", .startWorkflow]]

theorem logged_patcherLog (inputs : List Input)
    (h : (replayLogged State.patchEvents 20 inputs [] (State.start patcher)).isSome = true) :
    ∃ c : Config patcher, Logged State.patchEvents (patcherLog inputs) c := by
  obtain ⟨⟨log, s⟩, hrun⟩ := Option.isSome_iff_exists.mp h
  refine ⟨⟨[], s⟩, ?_⟩
  rw [patcherLog, hrun]
  exact Logged.start.replay hrun

theorem livePatcher_eq :
    livePatcher =
      [.called "p" .active false (.decided true) [.setPatchMarker "p" false],
        .called "p" .deprecated false (.raised Context.mixedPatchModes) []] := by
  decide +kernel

theorem replayedPatcher_eq :
    replayedPatcher =
      [.notified "p", .called "p" .active true (.decided true) [.setPatchMarker "p" false],
        .called "p" .deprecated true (.raised Context.mixedPatchModes) []] := by
  decide +kernel

/-- The replay answers as the live run did. -/
theorem patches_stable_patcher :
    Live livePatcher ∧ Notified livePatcher replayedPatcher ∧
    patchAnswers replayedPatcher = patchAnswers livePatcher := by
  have hlive : Live livePatcher := by
    rw [livePatcher_eq]
    simp [Live]
  have hnotified : Notified livePatcher replayedPatcher := by
    rw [livePatcher_eq, replayedPatcher_eq]
    intro id mode replaying reply markers hcall _ before mode' replaying'
      ⟨reply', markers', after, heq, _⟩
    cases before with
    | nil => simp at heq
    | cons e before => simp_all
  obtain ⟨c, hc⟩ := logged_patcherLog [.activate [.startWorkflow]] (by decide +kernel)
  obtain ⟨c', hc'⟩ := logged_patcherLog [.setActivationIsReplaying true,
    .activate [.notifyHasPatch "p", .startWorkflow]] (by decide +kernel)
  exact ⟨hlive, hnotified, (patches_stable hc).2.2.2 patcher replayedPatcher c' hc' hlive
    (by decide +kernel) hnotified⟩

end OcamlTemporal
