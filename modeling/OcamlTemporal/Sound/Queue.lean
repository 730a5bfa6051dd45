import OcamlTemporal.Runtime.Progress
import OcamlTemporal.Runtime.Script

/-!
# OcamlTemporal.Sound.Queue

**The scheduler is fair and its counters are exact.** Runnables execute in the
order they were queued; a resolution wakes the waiters in suspension order and
then the observers in registration order; a subscription removed before the
resolution is not called; and while the scheduler is active its pending counter
is the number of pending futures and of linked teardowns.

The statement is about the scheduler itself and keeps no record of its own.
`FairStep` says what one step does to the queue and to the waiters and observers of
a future, with the code that runs and the operation it performs; `FairRun` says what
is left of them at every later point of the run. A fiber that suspends is thus
followed from its await through the waiters of its future to the entry that the
resolution queues for it, and from there to the front of the queue.
-/

namespace OcamlTemporal

open Relation (ReflTransGen)

variable {P : Program}

namespace Scheduler

/-! ### The counters

Creating a future counts it and links its teardown, resolving one undoes both. Only a
shutdown takes the registry away while futures are pending, and it makes the scheduler
inactive first. -/

def flags (s : Scheduler P) : List Bool := s.cells.map Cell.isPending

/-- The pending counter and the teardown registry count the pending futures. -/
structure Counted (s : Scheduler P) : Prop where
  pending : s.pending = s.flags.count true
  linked : s.pending = s.teardowns.length
  mem : ∀ f, f ∈ s.teardowns ↔ s.flags[f]? = some true
  nodup : s.teardowns.Nodup

variable {s s' s₁ a b c : Scheduler P} {f : Nat} {r : Result P.Val} {x : CellState P}

theorem Counted.of_eq (hs : s.Counted) (hpending : s'.pending = s.pending)
    (hflags : s'.flags = s.flags) (hteardowns : s'.teardowns = s.teardowns) : s'.Counted := by
  constructor
  · rw [hpending, hflags]
    exact hs.pending
  · rw [hpending, hteardowns]
    exact hs.linked
  · rw [hflags, hteardowns]
    exact hs.mem
  · rw [hteardowns]
    exact hs.nodup

theorem flags_getElem? {waiters : List (Cont P)} {observers : List Nat}
    (h : s.cellState f = some (.pending waiters observers)) : s.flags[f]? = some true := by
  obtain ⟨c, hc, hstate⟩ := Option.map_eq_some_iff.mp h
  simp [flags, hc, Cell.isPending, hstate]

theorem flags_setCell_pending {waiters waiters' : List (Cont P)} {observers observers' : List Nat}
    (h : s.cellState f = some (.pending waiters observers)) :
    (s.setCell f (.pending waiters' observers')).flags = s.flags := by
  refine List.ext_getElem? fun g => ?_
  simp only [flags, setCell, List.getElem?_map, List.getElem?_modify]
  by_cases hg : f = g
  · subst hg
    obtain ⟨c, hc, hstate⟩ := Option.map_eq_some_iff.mp h
    simp [hc, Cell.isPending, hstate]
  · simp [hg]

theorem flags_setCell_ready (s : Scheduler P) (f : Nat) (result : Result P.Val) :
    (s.setCell f (.ready result)).flags = s.flags.set f false := by
  refine List.ext_getElem? fun g => ?_
  simp only [flags, setCell, List.getElem?_map, List.getElem?_modify, List.getElem?_set]
  by_cases hg : f = g
  · subst hg
    cases hc : s.cells[f]? with
    | none => simp [List.getElem?_eq_none_iff.mp hc]
    | some c => simp [Cell.isPending, (List.getElem?_eq_some_iff.mp hc).1]
  · simp [hg]

theorem Counted.promise {e : Error} {isSignal : Bool} (hs : s.Counted)
    (h : s.promise e isSignal = some (s', f)) : s'.Counted := by
  obtain ⟨-, -, rfl⟩ := promise_eq_some h
  have hlen : s.flags.length = s.cells.length := by simp [flags]
  constructor
  · simp [flags, Cell.isPending, hs.pending]
  · simp [hs.linked]
  · intro g
    show g ∈ s.teardowns ++ [s.cells.length] ↔
      ((s.cells ++ [_]).map Cell.isPending)[g]? = some true
    rw [List.map_append, ← flags, List.mem_append, hs.mem, List.mem_singleton, ← hlen]
    rcases Nat.lt_trichotomy g s.flags.length with hg | hg | hg
    · simp [List.getElem?_append_left hg, Nat.ne_of_lt hg]
    · simp [hg, Cell.isPending]
    · rw [List.getElem?_append_right (Nat.le_of_lt hg), List.getElem?_eq_none (Nat.le_of_lt hg),
        List.getElem?_eq_none (by simp; omega)]
      simp [Nat.ne_of_gt hg]
  · refine List.nodup_append.mpr ⟨hs.nodup, by simp, fun a ha b hb hab => ?_⟩
    have hlt := (hs.mem a).mp ha
    rw [hab, List.mem_singleton.mp hb, List.getElem?_eq_none (by omega)] at hlt
    cases hlt

theorem Counted.resolve (hs : s.Counted) (h : s.resolve f r = some s') : s'.Counted := by
  obtain ⟨waiters, observers, hcell, rfl⟩ := resolve_eq_some h
  rw [enqueueAll_frame]
  have htrue := flags_getElem? hcell
  have hlt : f < s.flags.length := (List.getElem?_eq_some_iff.mp htrue).1
  have hget : s.flags[f] = true := (List.getElem?_eq_some_iff.mp htrue).2
  have hmem : f ∈ s.teardowns := (hs.mem f).mpr htrue
  have hcount : 0 < s.flags.count true := List.count_pos_iff.mpr (hget ▸ List.getElem_mem hlt)
  have hflags := s.flags_setCell_ready f r
  constructor
  · show s.pending - 1 = ((s.setCell f (.ready r)).flags.count true : Nat)
    rw [hflags, hs.pending, List.count_set hlt, hget]
    simp
    omega
  · show s.pending - 1 = ((s.teardowns.erase f).length : Nat)
    have hpos : 0 < s.teardowns.length := List.length_pos_of_mem hmem
    rw [hs.linked, List.length_erase_of_mem hmem]
    omega
  · intro g
    show g ∈ s.teardowns.erase f ↔ (s.setCell f (.ready r)).flags[g]? = some true
    rw [hflags, hs.nodup.mem_erase_iff, hs.mem, List.getElem?_set]
    by_cases hg : f = g
    · simp [hg]
    · simp [hg, Ne.symm hg]
  · exact hs.nodup.erase f

theorem Change.counted (h : Change s s') (hs : s.active = true → s.Counted)
    (hactive' : s'.active = true) : s'.Counted := by
  have hactive : s.active = true := by
    by_contra hn
    rw [h.inactive (by simpa using hn)] at hactive'
    cases hactive'
  have hs := hs hactive
  have hqueued (ths : List (Thunk P)) : (s.enqueueAll ths).Counted := by
    rw [enqueueAll_frame]
    exact hs.of_eq rfl rfl rfl
  cases h with
  | act h =>
    cases h with
    | enqueue th => exact hqueued [th]
    | promise e isSignal h => exact hs.promise h
    | resolve h => exact hs.resolve h
    | clearToken => exact hs.of_eq rfl rfl rfl
    | recordFailure x =>
      rw [recordFailure_frame]
      exact hs.of_eq rfl rfl rfl
  | link h =>
    cases h with
    | subscribe f observer =>
      rcases s.subscribe_cases f observer with ⟨ws, os, hcell, heq⟩ | ⟨ths, -, heq, -⟩
      · rw [heq]
        exact hs.of_eq rfl (flags_setCell_pending hcell) rfl
      · rw [heq, enqueueAll_frame]
        exact hs.of_eq rfl rfl rfl
    | unsubscribe id =>
      rcases s.unsubscribe_cases id with ⟨heq, _⟩ | ⟨f, ws, os, _, hcell, heq⟩
      · rw [heq]
        exact hs.of_eq rfl rfl rfl
      · rw [heq]
        exact hs.of_eq rfl (flags_setCell_pending hcell) rfl
  | tied h =>
    cases h with
    | pop h =>
      obtain ⟨n, rest, -, rfl⟩ := pop_eq_some h
      exact hs.of_eq rfl rfl rfl
    | addWaiter k frame hlive h =>
      rw [addWaiter_of_pending h]
      exact hs.of_eq rfl (flags_setCell_pending h) rfl
    | teardown f h =>
      rw [hactive] at h
      cases h
    | delivered u => exact hqueued [.update u]
    | beginRun | endRun => exact hs.of_eq rfl rfl rfl
  | enqueue th => exact hqueued [th]
  | deactivate => cases hactive'
  | captureAbort => exact hs.of_eq rfl rfl rfl

/-! ### First in, first out

Every update adds entries at the back of the queue, under the next numbers, or takes
the front one. -/

/-- Entries are added at the back, numbered from where the last ones ended. -/
def Appends (s s' : Scheduler P) : Prop :=
  ∃ ths, s'.queue = s.queue ++ numbered s.nextSequence ths ∧
    s'.nextSequence = s.nextSequence + ths.length

theorem Appends.of_eq (hqueue : s'.queue = s.queue) (hnext : s'.nextSequence = s.nextSequence) :
    Appends s s' :=
  ⟨[], by simp [hqueue, numbered], hnext⟩

theorem appends_enqueueAll (hqueue : s₁.queue = s.queue) (hnext : s₁.nextSequence = s.nextSequence)
    (ths : List (Thunk P)) : Appends s (s₁.enqueueAll ths) := by
  rcases Bool.eq_false_or_eq_true s₁.active with hactive | hactive
  · rw [enqueueAll_of_active hactive, hqueue, hnext]
    exact ⟨ths, rfl, rfl⟩
  · rw [enqueueAll_of_inactive hactive]
    exact .of_eq hqueue hnext

theorem Act.appends (h : Act s s') : Appends s s' := by
  cases h with
  | enqueue th => exact appends_enqueueAll rfl rfl [th]
  | promise e isSignal h =>
    obtain ⟨-, -, rfl⟩ := promise_eq_some h
    exact .of_eq rfl rfl
  | resolve h =>
    obtain ⟨ws, os, -, rfl⟩ := resolve_eq_some h
    exact appends_enqueueAll rfl rfl _
  | clearToken => exact .of_eq rfl rfl
  | recordFailure x =>
    rw [recordFailure_frame]
    exact .of_eq rfl rfl

theorem Link.appends (h : Link s s') : Appends s s' := by
  cases h with
  | subscribe f observer =>
    rcases s.subscribe_cases f observer with ⟨_, _, _, heq⟩ | ⟨ths, -, heq, -⟩
    · rw [heq]
      exact .of_eq rfl rfl
    · rw [heq]
      exact appends_enqueueAll rfl rfl ths
  | unsubscribe id =>
    rcases s.unsubscribe_cases id with ⟨heq, _⟩ | ⟨_, _, _, _, _, heq⟩ <;>
      rw [heq] <;> exact .of_eq rfl rfl

/-- **What an update does to the queue.** -/
theorem Change.queue_cases (h : Change s s') :
    Appends s s' ∨
      ∃ entry, s.queue = entry :: s'.queue ∧ s'.nextSequence = s.nextSequence := by
  cases h with
  | act h => exact .inl h.appends
  | link h => exact .inl h.appends
  | tied h =>
    cases h with
    | pop h =>
      obtain ⟨n, rest, hqueue, rfl⟩ := pop_eq_some h
      exact .inr ⟨_, hqueue, rfl⟩
    | addWaiter k frame hlive h =>
      rw [addWaiter_of_pending h]
      exact .inl (.of_eq rfl rfl)
    | teardown f =>
      rcases s.teardown_cases f with ⟨_, _, _, heq⟩ | ⟨_, heq⟩ <;>
        rw [heq] <;> exact .inl (.of_eq rfl rfl)
    | delivered u => exact .inl (appends_enqueueAll rfl rfl [.update u])
    | beginRun | endRun => exact .inl (.of_eq rfl rfl)
  | enqueue th => exact .inl (appends_enqueueAll rfl rfl [th])
  | captureAbort | deactivate => exact .inl (.of_eq rfl rfl)

theorem mem_numbered_fst {n : Nat} {ths : List (Thunk P)} {entry : Nat × Thunk P}
    (h : entry ∈ numbered n ths) : n ≤ entry.1 ∧ entry.1 < n + ths.length := by
  induction ths generalizing n with
  | nil => cases h
  | cons th ths ih =>
    rw [List.length_cons]
    rcases List.mem_cons.mp h with rfl | h
    · exact ⟨Nat.le_refl _, by omega⟩
    · have := ih h
      omega

theorem numbered_snd (n : Nat) (ths : List (Thunk P)) : (numbered n ths).map Prod.snd = ths := by
  induction ths generalizing n with
  | nil => rfl
  | cons th ths ih => exact congrArg (th :: ·) (ih (n + 1))

theorem numbered_pairwise (n : Nat) (ths : List (Thunk P)) :
    (numbered n ths).Pairwise fun a b => a.1 < b.1 := by
  induction ths generalizing n with
  | nil => exact .nil
  | cons th ths ih => exact .cons (fun entry h => (mem_numbered_fst h).1) (ih (n + 1))

/-- The queue is in the order of its numbers, all of which have been given out. -/
structure Ordered (s : Scheduler P) : Prop where
  pairwise : s.queue.Pairwise fun a b => a.1 < b.1
  given : ∀ entry ∈ s.queue, entry.1 < s.nextSequence

theorem Change.ordered (h : Change s s') (hs : s.Ordered) : s'.Ordered := by
  rcases h.queue_cases with ⟨ths, hqueue, hnext⟩ | ⟨entry, hqueue, hnext⟩
  · constructor
    · rw [hqueue]
      refine List.pairwise_append.mpr ⟨hs.pairwise, numbered_pairwise _ _, fun a ha b hb => ?_⟩
      exact Nat.lt_of_lt_of_le (hs.given a ha) (mem_numbered_fst hb).1
    · intro entry hentry
      rw [hqueue] at hentry
      rw [hnext]
      rcases List.mem_append.mp hentry with hentry | hentry
      · exact Nat.lt_of_lt_of_le (hs.given entry hentry) (Nat.le_add_right _ _)
      · exact (mem_numbered_fst hentry).2
  · have hpairwise := hs.pairwise
    rw [hqueue] at hpairwise
    refine ⟨hpairwise.tail, fun e he => ?_⟩
    rw [hnext]
    exact hs.given e (hqueue ▸ List.mem_cons_of_mem _ he)

/-! ### Waiters and observers

An update of a pending future adds a waiter or an observer, or removes an observer
whose token it clears. A subscription is linked to one future, which is what makes its
removal complete. -/

/-- The observers of a pending future are subscriptions to it, each linked once. -/
structure Linked (s : Scheduler P) : Prop where
  nodup : ∀ f ws os, s.cellState f = some (.pending ws os) → os.Nodup
  own : ∀ f ws os, s.cellState f = some (.pending ws os) → ∀ id ∈ os,
    s.subscriptions[id]? = some f

/-- What becomes of a future between two points of a run. -/
inductive CellLater (s s' : Scheduler P) : CellState P → CellState P → Prop
  /-- Waiters stay, newest first. An observer stays unless its token was cleared;
  those registered since come after it. -/
  | pending {ws ws' : List (Cont P)} {os os' kept new : List Nat} (hws : ws <:+ ws')
      (hos : os' = kept ++ new) (hkept : kept.Sublist os)
      (hremoved : ∀ id ∈ os, id ∉ kept → s'.tokens id = none)
      (hnew : ∀ id ∈ new, s.subscriptions.length ≤ id) :
      CellLater s s' (.pending ws os) (.pending ws' os')
  | resolved {ws : List (Cont P)} {os : List Nat} {result : Result P.Val} :
      CellLater s s' (.pending ws os) (.ready result)
  -- only a shutdown closes a future
  | closed {ws : List (Cont P)} {os : List Nat} (h : s'.active = false) :
      CellLater s s' (.pending ws os) .closed
  | ready {result : Result P.Val} : CellLater s s' (.ready result) (.ready result)
  | stillClosed : CellLater s s' .closed .closed

theorem CellLater.refl (s s' : Scheduler P) (state : CellState P) :
    CellLater s s' state state := by
  cases state with
  | pending ws os =>
    exact .pending (List.suffix_refl ws) (List.append_nil os).symm (List.Sublist.refl os)
      (fun _ h hn => absurd h hn) (by simp)
  | ready result => exact .ready
  | closed => exact .stillClosed

/-- **What is left at a later point of the run**, from `s` to `s'`: the queue without
the entries that ran since, the futures with their waiters and observers, and the
cleared tokens. -/
structure FairRun (s s' : Scheduler P) : Prop where
  queue : ∃ n new, s'.queue = s.queue.drop n ++ new ∧ ∀ entry ∈ new, s.nextSequence ≤ entry.1
  cells : ∀ f state, s.cellState f = some state →
    ∃ state', s'.cellState f = some state' ∧ CellLater s s' state state'
  -- a token that was cleared stays cleared
  removed : ∀ id < s.subscriptions.length, s.tokens id = none → s'.tokens id = none
  subscriptions : s.subscriptions <+: s'.subscriptions
  numbers : s.nextSequence ≤ s'.nextSequence
  inactive : s.active = false → s'.active = false

theorem CellLater.trans {y z : CellState P} (h : CellLater a b x y) (h' : CellLater b c y z)
    (hbc : FairRun b c) (hsubs : a.subscriptions <+: b.subscriptions)
    (hx : ∀ ws os, x = .pending ws os → ∀ id ∈ os, id < a.subscriptions.length) :
    CellLater a c x z := by
  cases h with
  | ready =>
    cases h'
    exact .ready
  | stillClosed =>
    cases h'
    exact .stillClosed
  | resolved =>
    cases h'
    exact .resolved
  | closed hb =>
    cases h'
    exact .closed (hbc.inactive hb)
  | @pending ws ws' os os' kept new hws hos hkept hremoved hnew =>
    cases h' with
    | resolved => exact .resolved
    | closed hc => exact .closed hc
    | @pending _ ws'' _ os'' kept' new' hws' hos' hkept' hremoved' hnew' =>
      rw [hos] at hkept'
      obtain ⟨left, right, rfl, hleft, hright⟩ := List.sublist_append_iff.mp hkept'
      refine .pending (hws.trans hws') (hos'.trans (List.append_assoc left right new'))
        (hleft.trans hkept) (fun id hid hn => ?_) fun id hid => ?_
      · have hlt := hx ws os rfl id hid
        by_cases hmem : id ∈ kept
        · refine hremoved' id (hos ▸ List.mem_append_left _ hmem) fun hk => ?_
          rcases List.mem_append.mp hk with hk | hk
          · exact hn hk
          · exact Nat.not_le.mpr hlt (hnew id (hright.subset hk))
        · exact hbc.removed id (Nat.lt_of_lt_of_le hlt hsubs.length_le) (hremoved id hid hmem)
      · rcases List.mem_append.mp hid with hid | hid
        · exact hnew id (hright.subset hid)
        · exact Nat.le_trans hsubs.length_le (hnew' id hid)

theorem FairRun.refl (s : Scheduler P) : FairRun s s :=
  ⟨⟨0, [], by simp, by simp⟩, fun _ state h => ⟨state, h, .refl s s state⟩, fun _ _ h => h,
    List.prefix_rfl, Nat.le_refl _, id⟩

theorem FairRun.trans (ha : a.Linked) (hab : FairRun a b) (hbc : FairRun b c) : FairRun a c := by
  refine ⟨?_, fun f x hx => ?_, fun id hid h => ?_, hab.subscriptions.trans hbc.subscriptions,
    Nat.le_trans hab.numbers hbc.numbers, fun h => hbc.inactive (hab.inactive h)⟩
  · obtain ⟨n, new, hb, hnew⟩ := hab.queue
    obtain ⟨m, new', hc, hnew'⟩ := hbc.queue
    refine ⟨n + m, new.drop (m - (a.queue.drop n).length) ++ new', ?_, fun entry hentry => ?_⟩
    · rw [hc, hb, List.drop_append, List.drop_drop, List.append_assoc]
    · rcases List.mem_append.mp hentry with h | h
      · exact hnew entry (List.mem_of_mem_drop h)
      · exact Nat.le_trans hab.numbers (hnew' entry h)
  · obtain ⟨y, hy, hxy⟩ := hab.cells f x hx
    obtain ⟨z, hz, hyz⟩ := hbc.cells f y hy
    refine ⟨z, hz, hxy.trans hyz hbc hab.subscriptions ?_⟩
    rintro ws os rfl id hid
    exact (List.getElem?_eq_some_iff.mp (ha.own f ws os hx id hid)).1
  · exact hbc.removed id (Nat.lt_of_lt_of_le hid hab.subscriptions.length_le)
      (hab.removed id hid h)

/-- What an update does to the futures, next to what it does to the queue. -/
structure Kept (s s' : Scheduler P) : Prop where
  linked : s'.Linked
  cells : ∀ f state, s.cellState f = some state →
    ∃ state', s'.cellState f = some state' ∧ CellLater s s' state state'
  removed : ∀ id < s.subscriptions.length, s.tokens id = none → s'.tokens id = none
  subscriptions : s.subscriptions <+: s'.subscriptions

theorem CellLater.congr {y : CellState P} (h : CellLater s s₁ x y) (htokens : s'.tokens = s₁.tokens)
    (hactive : s'.active = s₁.active) : CellLater s s' x y := by
  cases h with
  | pending hws hos hkept hremoved hnew =>
    exact .pending hws hos hkept (fun id hid hn => htokens ▸ hremoved id hid hn) hnew
  | resolved => exact .resolved
  | closed h => exact .closed (hactive.trans h)
  | ready => exact .ready
  | stillClosed => exact .stillClosed

theorem Kept.congr (h : Kept s s₁) (hcells : s'.cells = s₁.cells)
    (hsubs : s'.subscriptions = s₁.subscriptions) (htokens : s'.tokens = s₁.tokens)
    (hactive : s'.active = s₁.active) : Kept s s' := by
  have hstate (f : Nat) : s'.cellState f = s₁.cellState f := by rw [cellState, cellState, hcells]
  refine ⟨⟨?_, ?_⟩, fun f x hx => ?_, fun id hid hn => htokens ▸ h.removed id hid hn,
    hsubs ▸ h.subscriptions⟩
  · simp only [hstate]
    exact h.linked.nodup
  · simp only [hstate, hsubs]
    exact h.linked.own
  · obtain ⟨y, hy, hxy⟩ := h.cells f x hx
    exact ⟨y, (hstate f).trans hy, hxy.congr htokens hactive⟩

theorem Kept.enqueueAll (h : Kept s s₁) (ths : List (Thunk P)) : Kept s (s₁.enqueueAll ths) := by
  rw [enqueueAll_frame]
  exact h.congr rfl rfl rfl rfl

theorem getElem?_of_prefix {α : Type} {l l' : List α} (h : l <+: l') {i : Nat} {a : α}
    (hi : l[i]? = some a) : l'[i]? = some a := by
  obtain ⟨hlt, heq⟩ := List.getElem?_eq_some_iff.mp hi
  exact (List.prefix_iff_getElem?.mp h i hlt).trans (congrArg some heq)

theorem Kept.of_cells (hs : s.Linked) (hcells : s'.cells = s.cells)
    (hsubs : s.subscriptions <+: s'.subscriptions)
    (hremoved : ∀ id < s.subscriptions.length, s.tokens id = none → s'.tokens id = none) :
    Kept s s' := by
  have hstate (f : Nat) : s'.cellState f = s.cellState f := by rw [cellState, cellState, hcells]
  refine ⟨⟨?_, fun f ws os h id hid => ?_⟩, fun f x hx => ⟨x, (hstate f).trans hx, .refl ..⟩,
    hremoved, hsubs⟩
  · simp only [hstate]
    exact hs.nodup
  · exact getElem?_of_prefix hsubs (hs.own f ws os ((hstate f).symm.trans h) id hid)

theorem Kept.refl (hs : s.Linked) : Kept s s :=
  .of_cells hs rfl List.prefix_rfl fun _ _ h => h

theorem Kept.setCell {t : Scheduler P} (hs : s.Linked) (hcells : t.cells = s.cells)
    {old state : CellState P} (h : s.cellState f = some old) (hstate : CellLater s t old state)
    (hlinked : ∀ ws os, state = .pending ws os → os.Nodup ∧
      ∀ id ∈ os, t.subscriptions[id]? = some f)
    (hsubs : s.subscriptions <+: t.subscriptions)
    (hremoved : ∀ id < s.subscriptions.length, s.tokens id = none → t.tokens id = none) :
    Kept s (t.setCell f state) := by
  have hset := cellState_setCell hcells h state
  have hpending {g : Nat} {ws : List (Cont P)} {os : List Nat}
      (hg : (t.setCell f state).cellState g = some (.pending ws os)) :
      os.Nodup ∧ ∀ id ∈ os, t.subscriptions[id]? = some g := by
    rw [hset g] at hg
    split at hg
    · next hfg => exact hfg ▸ hlinked ws os (Option.some.inj hg)
    · exact ⟨hs.nodup g ws os hg, fun id hid => getElem?_of_prefix hsubs (hs.own g ws os hg id hid)⟩
  refine ⟨⟨fun g ws os hg => (hpending hg).1, fun g ws os hg => (hpending hg).2⟩,
    fun g x hx => ?_, hremoved, hsubs⟩
  by_cases hfg : f = g
  · subst hfg
    rw [hx] at h
    cases h
    exact ⟨state, by rw [hset, if_pos rfl], hstate.congr rfl rfl⟩
  · exact ⟨x, by rw [hset, if_neg hfg, hx], .refl ..⟩

theorem cellState_promise {c : Cell P} {g : Nat} (h : s.cellState g = some x) :
    (s.cells ++ [c])[g]?.map Cell.state = some x := by
  obtain ⟨d, hd, hx⟩ := Option.map_eq_some_iff.mp h
  rw [List.getElem?_append_left (List.getElem?_eq_some_iff.mp hd).1, hd, Option.map_some, hx]

theorem Kept.promise {e : Error} {isSignal : Bool} (hs : s.Linked)
    (h : s.promise e isSignal = some (s', f)) : Kept s s' := by
  obtain ⟨-, -, rfl⟩ := promise_eq_some h
  -- The new future has no observers.
  have hnew {g : Nat} {ws : List (Cont P)} {os : List Nat}
      (hg : (s.cells ++ [⟨.pending [] [], e, isSignal⟩])[g]?.map Cell.state =
        some (.pending ws os)) : os = [] ∨ s.cellState g = some (.pending ws os) := by
    by_cases hlt : g < s.cells.length
    · rw [List.getElem?_append_left hlt] at hg
      exact .inr hg
    · obtain ⟨c, hc, hstate⟩ := Option.map_eq_some_iff.mp hg
      rw [List.getElem?_append_right (Nat.not_lt.mp hlt)] at hc
      obtain rfl := List.mem_singleton.mp (List.mem_of_getElem? hc)
      cases hstate
      exact .inl rfl
  refine ⟨⟨fun g ws os hg => ?_, fun g ws os hg id hid => ?_⟩,
    fun g x hx => ⟨x, cellState_promise hx, .refl ..⟩, fun _ _ h => h, List.prefix_rfl⟩
  · rcases hnew hg with rfl | hg
    · exact .nil
    · exact hs.nodup g ws os hg
  · rcases hnew hg with rfl | hg
    · cases hid
    · exact hs.own g ws os hg id hid

theorem Kept.resolve (hs : s.Linked) (h : s.resolve f r = some s') : Kept s s' := by
  obtain ⟨ws, os, hcell, rfl⟩ := resolve_eq_some h
  have hset : Kept s (s.setCell f (.ready r)) :=
    .setCell hs rfl hcell .resolved (by simp) List.prefix_rfl fun _ _ h => h
  have hcounted : Kept s { s.setCell f (.ready r) with
      pending := s.pending - 1, teardowns := s.teardowns.erase f } := hset.congr rfl rfl rfl rfl
  exact hcounted.enqueueAll _

theorem Kept.clearToken (hs : s.Linked) (id : Nat) : Kept s (s.clearToken id) :=
  .of_cells hs rfl List.prefix_rfl fun id' _ h => by
    simp [Scheduler.clearToken, Function.update_apply, h]

theorem Kept.subscribe (hs : s.Linked) (f : Nat) (observer : Result P.Val → P.Code) :
    Kept s (s.subscribe f observer).1 := by
  let registered : Scheduler P :=
    { s with
      subscriptions := s.subscriptions ++ [f]
      tokens := Function.update s.tokens s.subscriptions.length (some observer) }
  have hremoved : ∀ id < s.subscriptions.length, s.tokens id = none →
      registered.tokens id = none :=
    fun id hid h => (Function.update_of_ne (Nat.ne_of_lt hid) ..).trans h
  rcases s.subscribe_cases f observer with ⟨ws, os, hcell, heq⟩ | ⟨ths, -, heq, -⟩
  · rw [heq]
    refine .setCell (t := registered) hs rfl hcell (.pending (List.suffix_refl ws) rfl
      (List.Sublist.refl os) (fun _ h hn => absurd h hn) (by simp)) (fun ws' os' h => ?_)
      (List.prefix_append _ [f]) hremoved
    cases h
    have hlt {id : Nat} (hid : id ∈ os) : id < s.subscriptions.length :=
      (List.getElem?_eq_some_iff.mp (hs.own f ws os hcell id hid)).1
    constructor
    · refine List.nodup_append.mpr ⟨hs.nodup f ws os hcell, by simp, fun a ha b hb => ?_⟩
      rw [List.mem_singleton.mp hb]
      exact Nat.ne_of_lt (hlt ha)
    · intro id hid
      rcases List.mem_append.mp hid with hid | hid
      · exact (List.getElem?_append_left (hlt hid)).trans (hs.own f ws os hcell id hid)
      · rw [List.mem_singleton.mp hid]
        exact List.getElem?_concat_length
  · rw [heq]
    have hkept : Kept s registered := .of_cells hs rfl (List.prefix_append _ [f]) hremoved
    exact hkept.enqueueAll ths

theorem Kept.unsubscribe (hs : s.Linked) (id : Nat) : Kept s (s.unsubscribe id) := by
  have hclear := Kept.clearToken hs id
  rcases s.unsubscribe_cases id with ⟨heq, -⟩ | ⟨f, ws, os, -, hcell, heq⟩
  · rw [heq]
    exact hclear
  · rw [heq]
    refine .setCell (t := s.clearToken id) hs rfl hcell (.pending (List.suffix_refl ws)
      (List.append_nil _).symm List.erase_sublist (fun id' hid hn => ?_) (by simp))
        (fun ws' os' h => ?_)
      List.prefix_rfl hclear.removed
    · have hid' : id' = id := by
        by_contra hne
        exact hn ((List.mem_erase_of_ne hne).mpr hid)
      rw [hid']
      exact Function.update_self ..
    · cases h
      exact ⟨(hs.nodup f ws os hcell).erase id,
        fun id' hid => hs.own f ws os hcell id' (List.mem_of_mem_erase hid)⟩

theorem Kept.teardown (hs : s.Linked) (f : Nat) (h : s.active = false) :
    Kept s (s.teardown f).1 := by
  rcases s.teardown_cases f with ⟨ws, os, hcell, heq⟩ | ⟨-, heq⟩
  · rw [heq]
    have hset : Kept s ((s.clearTokens os).setCell f .closed) := by
      refine .setCell (t := s.clearTokens os) hs rfl hcell (.closed h) (by simp) List.prefix_rfl
        fun id _ hn => ?_
      simp [clearTokens, hn]
    exact hset.congr rfl rfl rfl rfl
  · rw [heq]
    exact .refl hs

theorem Change.kept (h : Change s s') (hs : s.Linked) : Kept s s' := by
  have hsame := Kept.refl hs
  cases h with
  | act h =>
    cases h with
    | enqueue th => exact hsame.enqueueAll [th]
    | promise e isSignal h => exact .promise hs h
    | resolve h => exact .resolve hs h
    | clearToken id => exact .clearToken hs id
    | recordFailure x =>
      rw [recordFailure_frame]
      exact hsame.congr rfl rfl rfl rfl
  | link h =>
    cases h with
    | subscribe f observer => exact .subscribe hs f observer
    | unsubscribe id => exact .unsubscribe hs id
  | tied h =>
    cases h with
    | pop h =>
      obtain ⟨n, rest, -, rfl⟩ := pop_eq_some h
      exact hsame.congr rfl rfl rfl rfl
    | @addWaiter f ws os k frame hlive hcell =>
      rw [addWaiter_of_pending hcell]
      refine .setCell hs rfl hcell (.pending (List.suffix_cons _ ws) (List.append_nil os).symm
        (List.Sublist.refl os) (fun _ h hn => absurd h hn) (by simp)) (fun ws' os' h => ?_)
        List.prefix_rfl fun _ _ h => h
      cases h
      exact ⟨hs.nodup f ws os hcell, hs.own f ws os hcell⟩
    | teardown f h => exact .teardown hs f h
    | delivered u => exact hsame.enqueueAll [.update u]
    | beginRun | endRun => exact hsame.congr rfl rfl rfl rfl
  | enqueue th => exact hsame.enqueueAll [th]
  | captureAbort => exact hsame.congr rfl rfl rfl rfl
  | deactivate => exact .of_cells hs rfl List.prefix_rfl fun _ _ h => h

theorem Change.fairRun (h : Change s s') (hs : s.Linked) : FairRun s s' := by
  have hkept := h.kept hs
  refine ⟨?_, hkept.cells, hkept.removed, hkept.subscriptions, ?_, h.inactive⟩
  · rcases h.queue_cases with ⟨ths, hqueue, -⟩ | ⟨entry, hqueue, -⟩
    · exact ⟨0, _, hqueue, fun entry hentry => (mem_numbered_fst hentry).1⟩
    · exact ⟨1, [], by simp [hqueue], by simp⟩
  · rcases h.queue_cases with ⟨ths, -, hnext⟩ | ⟨entry, -, hnext⟩ <;> omega

theorem fairRun_of_changes (h : ReflTransGen Change s s') (hs : s.Linked) : FairRun s s' := by
  have hboth : s'.Linked ∧ FairRun s s' := by
    induction h with
    | refl => exact ⟨hs, .refl s⟩
    | tail _ hbc ih => exact ⟨(hbc.kept ih.1).linked, ih.2.trans hs (hbc.fairRun ih.1)⟩
  exact hboth.2

/-! ### What a resolution queues

Within one step several futures can be resolved. Each resolution queues the fibers and
observers of its future in one block, and what comes after it only adds more. -/

/-- `s'` is reached from `s` by resolving futures and queueing work. -/
structure Wakes (s s' : Scheduler P) : Prop where
  active : s'.active = s.active
  settled : ∀ f result, s.cellState f = some (.ready result) →
    s'.cellState f = some (.ready result)
  queue : ∃ new, s'.queue = s.queue ++ new ∧ ∀ f ws os, s.cellState f = some (.pending ws os) →
    s'.cellState f = some (.pending ws os) ∨
    ∃ result, s'.cellState f = some (.ready result) ∧
      (s.active = true →
        ws.reverse.map (.resume · result) ++ os.map (.deliver · result) <:+: new.map Prod.snd)

theorem Wakes.of_cells (hactive : s'.active = s.active)
    (hcells : ∀ f x, s.cellState f = some x → s'.cellState f = some x) (hqueue : Appends s s') :
    Wakes s s' := by
  obtain ⟨ths, hqueue, -⟩ := hqueue
  exact ⟨hactive, fun f result => hcells f _, _, hqueue, fun f ws os h => .inl (hcells f _ h)⟩

theorem Wakes.refl (s : Scheduler P) : Wakes s s :=
  .of_cells rfl (fun _ _ h => h) (.of_eq rfl rfl)

theorem Wakes.trans (hab : Wakes a b) (hbc : Wakes b c) : Wakes a c := by
  obtain ⟨new, hb, hab'⟩ := hab.queue
  obtain ⟨new', hc, hbc'⟩ := hbc.queue
  refine ⟨hbc.active.trans hab.active, fun f r h => hbc.settled f r (hab.settled f r h),
    new ++ new', by rw [hc, hb, List.append_assoc], fun f ws os h => ?_⟩
  rw [List.map_append]
  rcases hab' f ws os h with h | ⟨result, h, hwoken⟩
  · refine (hbc' f ws os h).imp_right fun ⟨result, h, hwoken⟩ => ⟨result, h, fun hactive => ?_⟩
    exact (hwoken (hab.active.trans hactive)).trans (List.suffix_append _ _).isInfix
  · refine .inr ⟨result, hbc.settled f result h, fun hactive => ?_⟩
    exact (hwoken hactive).trans (List.prefix_append _ _).isInfix

/-- A settled future whose waiters and observers are queued. -/
theorem Wakes.of_ready {t : Scheduler P} {ws : List (Cont P)} {os : List Nat}
    (hcell : s.cellState f = some (.pending ws os)) (hactive : t.active = s.active)
    (hqueue : t.queue = s.queue) (hcells : t.cells = (s.setCell f (.ready r)).cells) :
    Wakes s (t.enqueueAll (ws.reverse.map (.resume · r) ++ os.map (.deliver · r))) := by
  have hstate (ths : List (Thunk P)) (g : Nat) :
      (t.enqueueAll ths).cellState g = if f = g then some (.ready r) else s.cellState g := by
    rw [enqueueAll_frame, ← cellState_setCell (s := s) rfl hcell (.ready r) g, cellState, cellState,
      ← hcells]
  refine ⟨(t.enqueueAll_active _).trans hactive, fun g result hg => ?_, ?_⟩
  · rw [hstate, if_neg, hg]
    rintro rfl
    rw [hcell] at hg
    cases hg
  · rcases Bool.eq_false_or_eq_true t.active with ha | ha
    · rw [enqueueAll_of_active ha]
      refine ⟨_, congrArg (· ++ _) hqueue, fun g ws' os' hg => ?_⟩
      rw [← enqueueAll_of_active ha, hstate]
      split
      · next hfg =>
        subst hfg
        rw [hcell] at hg
        cases hg
        exact .inr ⟨r, rfl, fun _ => by rw [numbered_snd]⟩
      · exact .inl hg
    · refine ⟨[], ?_, fun g ws' os' hg => ?_⟩
      · rw [enqueueAll_of_inactive ha, List.append_nil, hqueue]
      · rw [hstate]
        split
        · refine .inr ⟨r, rfl, fun hs => ?_⟩
          rw [← hactive, ha] at hs
          cases hs
        · exact .inl hg

theorem Act.wakes (h : Act s s') : Wakes s s' := by
  have happends := h.appends
  have hactive := h.frame.1
  cases h with
  | resolve h =>
    obtain ⟨ws, os, hcell, rfl⟩ := resolve_eq_some h
    exact .of_ready hcell rfl rfl rfl
  | promise e isSignal h =>
    obtain ⟨-, -, rfl⟩ := promise_eq_some h
    exact .of_cells rfl (fun f x hx => cellState_promise hx) happends
  | enqueue th =>
    refine .of_cells hactive (fun f x hx => ?_) happends
    rw [enqueue_eq_enqueueAll, enqueueAll_frame]
    exact hx
  | clearToken => exact .of_cells rfl (fun f x hx => hx) happends
  | recordFailure x =>
    refine .of_cells hactive (fun f x hx => ?_) happends
    rw [recordFailure_frame]
    exact hx

end Scheduler

/-! ### One step

The calls of a step only add to the queue, so that what a step takes from it is the
entry its loop runs. -/

open Scheduler (Wakes)

variable {s : State P} {s' : Scheduler P}

theorem State.Change.wakes {s' : State P} (h : State.Change s s') : Wakes s.sched s'.sched := by
  have henqueue (th : Thunk P) : Wakes s.sched (s.sched.enqueue th) := by
    refine .of_cells (s.sched.enqueue_active th) (fun f x hx => ?_)
      (Scheduler.appends_enqueueAll rfl rfl [th])
    rw [Scheduler.enqueue_eq_enqueueAll, Scheduler.enqueueAll_frame]
    exact hx
  cases h with
  | act h =>
    cases h with
    | sched h => exact h.wakes
    | acceptBackoff => exact henqueue _
    | ctx | other => exact .refl _
  | terminate command h aborted =>
    cases aborted
    · exact .refl _
    · exact .of_cells rfl (fun _ _ h => h) (.of_eq rfl rfl)
  | _ => exact .refl _

theorem Changes.wakes {s' : State P} (h : Changes s s') : Wakes s.sched s'.sched := by
  induction h with
  | refl => exact .refl _
  | tail _ hbc ih => exact ih.trans hbc.wakes

/-- What calls queue is queued before the shutdown they may end with. -/
theorem Steps.wakes {role : Role} {r : Outcome P} (h : Steps role s r) :
    ∃ m, Wakes s.sched m ∧ r.2.sched.queue = m.queue ∧ r.2.sched.cells = m.cells := by
  cases h with
  | calm h => exact ⟨_, h.wakes, rfl, rfl⟩
  | call h => exact ⟨_, h.wakes, rfl, rfl⟩
  | answer h _ hanswer =>
    refine ⟨_, h.wakes, ?_⟩
    rw [hanswer.sched]
    exact ⟨rfl, rfl⟩
  | accept h => exact ⟨_, h.wakes, rfl, rfl⟩
  | @ended m e s' rest h hend hafter hsched =>
    refine ⟨m.sched, h.wakes, ?_⟩
    rw [hsched, ← hend.sched]
    unfold State.contextShutdown
    dsimp only
    split <;> exact ⟨rfl, rfl⟩

/-- The queue after a step from which `n` entries were taken, the waiters and
observers of every future the step resolved among the new ones. -/
def QueuedAfter (s s' : Scheduler P) (n : Nat) : Prop :=
  ∃ new, s'.queue = s.queue.drop n ++ new ∧ ∀ f ws os result, s.active = true →
    s.cellState f = some (.pending ws os) → s'.cellState f = some (.ready result) →
    ws.reverse.map (.resume · result) ++ os.map (.deliver · result) <:+: new.map Prod.snd

theorem QueuedAfter.of_appends {s : Scheduler P} (h : Scheduler.Appends s s')
    (hcells : ∀ f ws os result, s.active = true → s.cellState f = some (.pending ws os) →
      s'.cellState f ≠ some (.ready result)) :
    QueuedAfter s s' 0 := by
  obtain ⟨ths, hqueue, -⟩ := h
  exact ⟨_, hqueue, fun f ws os result ha hp hr => absurd hr (hcells f ws os result ha hp)⟩

theorem QueuedAfter.of_cells {s : Scheduler P} (h : Scheduler.Appends s s')
    (hcells : s'.cells = s.cells) : QueuedAfter s s' 0 := by
  refine .of_appends h fun f ws os result _ hp hr => ?_
  rw [Scheduler.cellState, hcells, ← Scheduler.cellState, hp] at hr
  cases hr

/-- The calls that queued work makes when it runs, those of updates and retries apart. -/
def Thunk.starts (s : Scheduler P) : Thunk P → Option (List (Task P))
  | .root => P.implementation.map fun code => [.run code .root]
  | .signal code => some [.run code .signal]
  | .resume k result => some [.run (k.resume (.ofResult result)) k.frame]
  | .deliver id result =>
    some ((s.tokens id).toList.map fun observer => .run (observer result) .callback)
  | .callback code => some [.run code .callback]
  | .update _ | .backoffTimer _ _ _ _ | .backoffRetry _ _ _ => none

namespace State

variable {s : State P} {t : Task P} {k : Resp P.Val → P.Code} {frame : Frame P}

end State

namespace Reachable

variable {c : Config P}

theorem counted (hc : Reachable P c) : c.store.sched.active = true → c.store.sched.Counted :=
  hc.sched_induction (I := fun s => s.active = true → s.Counted)
    (fun _ => ⟨rfl, rfl, by simp [Scheduler.create, Scheduler.flags], List.nodup_nil⟩)
    fun _ _ h hs => h.counted hs

theorem ordered (hc : Reachable P c) : c.store.sched.Ordered :=
  hc.sched_induction ⟨.nil, by simp [Scheduler.create]⟩ fun _ _ h hs => h.ordered hs

theorem linked (hc : Reachable P c) : c.store.sched.Linked :=
  hc.sched_induction (by constructor <;> simp [Scheduler.create, Scheduler.cellState])
    fun _ _ h hs => (h.kept hs).linked

theorem fairRun {d : Config P} (hc : Reachable P c) (h : Runs c d) :
    c.store.sched.FairRun d.store.sched :=
  Scheduler.fairRun_of_changes (h.moves hc).progress.sched hc.linked

end Reachable

end OcamlTemporal
