import Mathlib.Data.List.Perm.Basic
import OcamlTemporal.Runtime.Changes

/-!
# OcamlTemporal.Runtime.Continuations

Where the captured continuations of a scheduler are. A continuation waits on a
pending future or in the run queue (**`Scheduler.held`**); a shutdown hands those of
a closed future to the calls that discontinue them.
-/

namespace OcamlTemporal

variable {P : Program}

/-! ### Held continuations -/

def CellState.waiters : CellState P → List (Cont P)
  | .pending waiters _ => waiters
  | _ => []

def queuedConts (queue : List (Nat × Thunk P)) : List (Cont P) :=
  queue.filterMap fun entry => entry.2.cont?

namespace Scheduler

/-- The continuations that wait on a future or in the queue. -/
def held (s : Scheduler P) : List (Cont P) :=
  s.cells.flatMap (fun c => c.state.waiters) ++ queuedConts s.queue

/-- Replacing one element of a list that is flattened. -/
theorem flatMap_modify_perm {α β : Type} (w : α → List β) (g : α → α) {l : List α} {i : Nat}
    {a : α} (h : l[i]? = some a) :
    ((l.modify i g).flatMap w ++ w a).Perm (l.flatMap w ++ w (g a)) := by
  induction l generalizing i with
  | nil => cases h
  | cons b l ih =>
    cases i with
    | zero =>
      cases h
      simp only [List.modify_zero_cons, List.flatMap_cons]
      refine List.perm_append_comm.trans ?_
      rw [List.append_assoc]
      exact List.perm_append_comm.append_left (w a)
    | succ i =>
      simp only [List.modify_succ_cons, List.flatMap_cons, List.append_assoc]
      exact (ih h).append_left (w b)

variable {s s' : Scheduler P} {f : Nat} {th : Thunk P} {k : Cont P}

theorem held_setCell {t : Scheduler P} (hcells : t.cells = s.cells) (hqueue : t.queue = s.queue)
    {old : CellState P} (h : s.cellState f = some old) (state : CellState P) :
    ((t.setCell f state).held ++ old.waiters).Perm (s.held ++ state.waiters) := by
  obtain ⟨c, hc, rfl⟩ := Option.map_eq_some_iff.mp h
  have hperm := flatMap_modify_perm (fun c : Cell P => c.state.waiters)
    (fun c => { c with state }) hc
  have hq : (t.setCell f state).queue = s.queue := hqueue
  have hc' : (t.setCell f state).cells = s.cells.modify f fun c => { c with state } := by
    rw [← hcells]
    rfl
  unfold held
  rw [hq, hc', List.append_assoc, List.append_assoc]
  refine (List.perm_append_comm.append_left _).trans ?_
  rw [← List.append_assoc]
  refine (hperm.append_right _).trans ?_
  rw [List.append_assoc]
  exact List.perm_append_comm.append_left _

theorem queuedConts_append (queue more : List (Nat × Thunk P)) :
    queuedConts (queue ++ more) = queuedConts queue ++ queuedConts more :=
  List.filterMap_append

theorem queuedConts_numbered (n : Nat) (ths : List (Thunk P)) :
    queuedConts (numbered n ths) = ths.filterMap Thunk.cont? := by
  induction ths generalizing n with
  | nil => rfl
  | cons th ths ih =>
    have := ih (n + 1)
    simp only [queuedConts, numbered, List.filterMap_cons] at this ⊢
    rw [this]

theorem held_enqueueAll_of_active (h : s.active = true) (ths : List (Thunk P)) :
    (s.enqueueAll ths).held = s.held ++ ths.filterMap Thunk.cont? := by
  rw [enqueueAll_of_active h]
  simp [held, queuedConts_append, queuedConts_numbered]

theorem held_enqueueAll_of_inactive (h : s.active = false) (ths : List (Thunk P)) :
    (s.enqueueAll ths).held = s.held := by
  rw [enqueueAll_of_inactive h]

theorem held_pop (h : s.pop = some (th, s')) : s.held.Perm (th.cont?.toList ++ s'.held) := by
  obtain ⟨n, rest, hq, rfl⟩ := pop_eq_some h
  unfold held queuedConts
  rw [hq, List.filterMap_cons]
  cases th.cont? with
  | none => simp
  | some k =>
    simp only [Option.toList_some, List.singleton_append]
    exact List.perm_middle

/-! ### Where held continuations come from -/

theorem mem_held_pop (h : s.pop = some (th, s')) (hk : k ∈ s'.held) : k ∈ s.held :=
  (held_pop h).mem_iff.mpr (List.mem_append_right _ hk)

theorem mem_held_of_pop {r : Result P.Val} (h : s.pop = some (.resume k r, s')) : k ∈ s.held :=
  (held_pop h).mem_iff.mpr (List.mem_append_left _ (by simp [Thunk.cont?]))

theorem mem_held_of_setCell {t : Scheduler P} (hcells : t.cells = s.cells)
    (hqueue : t.queue = s.queue) {old state : CellState P} (h : s.cellState f = some old)
    (hk : k ∈ (t.setCell f state).held) : k ∈ s.held ∨ k ∈ state.waiters :=
  List.mem_append.mp ((held_setCell hcells hqueue h state).mem_iff.mp
    (List.mem_append_left _ hk))

theorem mem_held_of_waiters {state : CellState P} (h : s.cellState f = some state)
    (hk : k ∈ state.waiters) : k ∈ s.held := by
  obtain ⟨c, hc, rfl⟩ := Option.map_eq_some_iff.mp h
  exact List.mem_append_left _ (List.mem_flatMap.mpr ⟨c, List.mem_of_getElem? hc, hk⟩)

theorem mem_held_enqueueAll (ths : List (Thunk P)) (hk : k ∈ (s.enqueueAll ths).held) :
    k ∈ s.held ∨ k ∈ ths.filterMap Thunk.cont? := by
  rcases Bool.eq_false_or_eq_true s.active with ha | ha
  · rw [held_enqueueAll_of_active ha] at hk
    exact List.mem_append.mp hk
  · rw [held_enqueueAll_of_inactive ha] at hk
    exact .inl hk

theorem mem_held_enqueue (hth : th.cont? = none) (hk : k ∈ (s.enqueue th).held) : k ∈ s.held :=
  (mem_held_enqueueAll [th] hk).resolve_right (by simp [hth])

theorem Act.held_subset (h : Act s s') : s'.held ⊆ s.held := by
  intro k hk
  cases h with
  | enqueue th hth => exact mem_held_enqueue (Thunk.cont?_of_isPlain hth) hk
  | promise e isSignal h =>
    obtain ⟨-, -, rfl⟩ := promise_eq_some h
    simpa [held, CellState.waiters] using hk
  | resolve h =>
    obtain ⟨waiters, observers, hcell, rfl⟩ := resolve_eq_some h
    rcases mem_held_enqueueAll _ hk with hk | hk
    · rcases mem_held_of_setCell (s := s) (t := s) rfl rfl hcell hk with hk | hk
      · exact hk
      · cases hk
    · simp only [List.filterMap_append, List.filterMap_map, List.mem_append, List.mem_filterMap,
        Function.comp_apply, Thunk.cont?, List.mem_reverse, reduceCtorEq, and_false, exists_false,
        or_false, Option.some.injEq, exists_eq_right] at hk
      exact mem_held_of_waiters hcell hk
  | clearToken id => exact hk
  | recordFailure x =>
    rw [recordFailure_frame] at hk
    exact hk

/-- Registering and removing an observer leaves every waiter where it is. -/
theorem Link.held_subset (h : Link s s') : s'.held ⊆ s.held := by
  intro k hk
  cases h with
  | subscribe f observer =>
    rcases s.subscribe_cases f observer with ⟨ws, os, hcell, heq⟩ | ⟨ths, -, heq, hths⟩
    · rw [heq] at hk
      rcases mem_held_of_setCell (s := s) rfl rfl hcell hk with hk | hk
      · exact hk
      · exact mem_held_of_waiters hcell hk
    · rw [heq] at hk
      refine (mem_held_enqueueAll _ hk).resolve_right fun hk => ?_
      obtain ⟨th, hth, hk⟩ := List.mem_filterMap.mp hk
      obtain ⟨result, rfl⟩ := hths th hth
      cases hk
  | unsubscribe id =>
    rcases s.unsubscribe_cases id with ⟨heq, -⟩ | ⟨f, ws, os, -, hcell, heq⟩
    · rw [heq] at hk
      exact hk
    · rw [heq] at hk
      rcases mem_held_of_setCell (s := s) rfl rfl hcell hk with hk | hk
      · exact hk
      · exact mem_held_of_waiters hcell hk

end Scheduler

/-- The continuations a call still has to discontinue. -/
def Task.held : Task P → List (Cont P)
  | .discontinue waiters => waiters
  | _ => []

end OcamlTemporal
