import Mathlib
import OcamlTemporal.Mailbox.SharedRuntime

/-!
# OcamlTemporal.Sound.SharedRuntime

**A shared runtime is closed once, and not under anybody's feet.** The count of a runtime is the
number of its leases that are not `settled`, released and counted down. `Inv` says so, together
with the reason why a lease is counted down once however many threads release it: at most one
of them finds the flag unset (`Inv.once`). While a lease is counted the runtime cannot begin to
close (`Inv.opened`).

* `shared_runtime_counts` is what the runtime promises to any user.
* `graphs_end_first` is what it promises to users that release a lease after the graphs on it,
  as a supervisor does.
-/

namespace OcamlTemporal.Mailbox.SharedRuntime

variable {ε : Type} {s s' : State ε} {i : Nat} {lease : Lease}

/-! ## Counting

Releasing is not atomic: between the exchange of the flag and the critical section that counts down,
other threads may release the same lease. A lease is therefore settled only after both. -/

/-- The lease was released, and the thread that found its flag unset has counted it down. -/
def Lease.settled (lease : Lease) : Bool := lease.released && lease.counting == 0

/-- The leases that the runtime has to count: those held and those whose release is under way. -/
def outstanding (leases : List Lease) : Nat := leases.countP fun lease => !lease.settled

/-- Changing one lease changes the number by what that lease contributed before and contributes
now. -/
theorem outstanding_set {leases : List Lease} {new : Lease} (h : leases[i]? = some lease) :
    (outstanding (leases.set i new) : Int) =
      outstanding leases - (!lease.settled).toNat + (!new.settled).toNat := by
  obtain ⟨hi, rfl⟩ := List.getElem?_eq_some_iff.mp h
  have hle : (!leases[i].settled).toNat ≤ outstanding leases := by
    cases hsettled : leases[i].settled with
    | true => exact Nat.zero_le _
    | false => exact List.countP_pos_iff.mpr ⟨_, List.getElem_mem hi, by simp [hsettled]⟩
  have hset := List.countP_set (p := fun lease : Lease => !lease.settled) (a := new) hi
  unfold outstanding at *
  rw [hset]
  generalize List.countP _ leases = n at *
  cases hold : leases[i].settled <;> cases hnew : new.settled <;> simp [hold] at hle ⊢
  all_goals omega

def closes (trace : List (Event ε)) : Nat :=
  trace.countP fun
    | .close => true
    | _ => false

/-- The books of a runtime. A lease is counted until it is settled, `once` bounds the threads
that are about to count one down, and a runtime that has begun to close has nothing to count. -/
structure Inv (s : State ε) : Prop where
  counted : s.attached = outstanding s.leases
  once : ∀ lease ∈ s.leases, lease.counting ≤ lease.released.toNat
  closed : s.closed = true ↔ s.native ≠ .opened
  empty : s.closed = true → s.attached = 0
  attach : ∀ i native, .attach i false native ∈ s.trace → native = .opened
  close : closes s.trace = s.closed.toNat
  shutdown : .shutdown (.ok ()) ∈ s.trace → s.native = .destroyed

theorem inv_make : Inv (State.make : State ε) where
  counted := rfl
  once := by simp [State.make]
  closed := by simp [State.make]
  empty _ := rfl
  attach := by simp [State.make]
  close := rfl
  shutdown := by simp [State.make]

/-- While a lease is counted the runtime has not begun to close, since the count is positive. -/
theorem Inv.opened (hs : Inv s) (hlease : lease ∈ s.leases) (hcounted : lease.settled = false) :
    s.closed = false ∧ s.native = .opened := by
  have hpos : 0 < outstanding s.leases :=
    List.countP_pos_iff.mpr ⟨lease, hlease, by simp [hcounted]⟩
  have hclosed : s.closed = false := by
    refine Bool.eq_false_iff.mpr fun hclosed => ?_
    have hzero := hs.empty hclosed
    have hcount := hs.counted
    omega
  refine ⟨hclosed, not_not.mp fun hnative => ?_⟩
  rw [hs.closed.mpr hnative] at hclosed
  cases hclosed

/-- A change to one lease keeps the books if the count moves with it, no second thread is let in to
count it down, and a closed runtime still counts nothing. -/
theorem Inv.setLease {new : Lease} {n : Int} (hs : Inv s) (hlease : s.leases[i]? = some lease)
    (hn : n = s.attached - (!lease.settled).toNat + (!new.settled).toNat)
    (honce : new.counting ≤ new.released.toNat) (hempty : s.closed = true → n = 0) :
    Inv ({ s with attached := n }.setLease i new) := by
  refine { hs with counted := ?_, once := ?_, empty := hempty }
  · rw [hn, hs.counted]
    exact (outstanding_set hlease).symm
  · intro lease' hmem
    rcases List.mem_or_eq_of_mem_set hmem with hmem | rfl
    · exact hs.once lease' hmem
    · exact honce

theorem Inv.note {event : Event ε} (hs : Inv s) (hclose : event ≠ .close)
    (hattach : ∀ i native, event = .attach i false native → native = .opened)
    (hshutdown : event = .shutdown (.ok ()) → s.native = .destroyed) : Inv (s.note event) := by
  refine { hs with attach := ?_, close := ?_, shutdown := ?_ }
  · intro i native hmem
    rcases List.mem_append.mp hmem with hmem | hmem
    · exact hs.attach i native hmem
    · exact hattach i native (List.mem_singleton.mp hmem).symm
  · have hnone : closes [event] = 0 := by
      cases event <;> simp [closes] at hclose ⊢
    refine Eq.trans ?_ hs.close
    rw [State.note, closes, List.countP_append]
    exact congrArg _ hnone
  · intro hmem
    rcases List.mem_append.mp hmem with hmem | hmem
    · exact hs.shutdown hmem
    · exact hshutdown (List.mem_singleton.mp hmem).symm

/-! ## Steps

One lemma per label. The two that matter are `Inv.exchange`, where a second thread finds the flag
set and drops out, and `Inv.shutdownCall`, which begins to close only at count zero. -/

theorem Inv.acquire (hs : Inv s) : Inv s.acquire := by
  unfold State.acquire
  split
  · exact hs.note (by simp) (by simp) (by simp)
  · rename_i hopen
    refine Inv.note ?_ (by simp) (by simp) (by simp)
    refine { hs with counted := ?_, once := ?_, empty := fun hclosed => absurd hclosed hopen }
    · simp [outstanding, hs.counted, Lease.fresh, Lease.settled]
    · intro lease hmem
      rcases List.mem_append.mp hmem with hmem | hmem
      · exact hs.once lease hmem
      · simp [List.mem_singleton.mp hmem, Lease.fresh]

theorem Inv.attachLease (hs : Inv s) (hlease : s.leases[i]? = some lease)
    (answer : Except ε Unit) : Inv (s.attach i lease answer) := by
  have hmem := List.mem_of_getElem? hlease
  refine Inv.note (hs.setLease hlease (by simp [Lease.settled]) (hs.once lease hmem) hs.empty)
    (by simp) ?_ (by simp)
  intro i native heq
  simp only [Event.attach.injEq] at heq
  obtain ⟨-, hreleased, rfl⟩ := heq
  exact (hs.opened hmem (by simp [Lease.settled, hreleased])).2

/-- Only a thread that finds the flag unset joins those that count the lease down, and then it
is the only one. -/
theorem Inv.exchange (hs : Inv s) (hlease : s.leases[i]? = some lease) :
    Inv (s.setLease i lease.exchange) := by
  have honce := hs.once lease (List.mem_of_getElem? hlease)
  cases hreleased : lease.released with
  | true =>
    rw [hreleased] at honce
    refine hs.setLease hlease ?_ (by simpa [Lease.exchange, hreleased] using honce) hs.empty
    simp [Lease.settled, Lease.exchange, hreleased]
  | false =>
    rw [hreleased] at honce
    have hzero : lease.counting = 0 := Nat.le_zero.mp honce
    refine hs.setLease hlease ?_ (by simp [Lease.exchange, hreleased, hzero]) hs.empty
    simp [Lease.settled, Lease.exchange, hreleased, hzero]

theorem Inv.countDown (hs : Inv s) (hlease : s.leases[i]? = some lease)
    (hcounting : lease.counting ≠ 0) :
    Inv ({ s with attached := s.attached - 1 }.setLease i
      { lease with counting := lease.counting - 1 }) := by
  have hmem := List.mem_of_getElem? hlease
  have honce := hs.once lease hmem
  have hcounted : lease.settled = false := by simp [Lease.settled, hcounting]
  cases hreleased : lease.released with
  | false =>
    rw [hreleased] at honce
    exact absurd (Nat.le_zero.mp honce) hcounting
  | true =>
    rw [hreleased] at honce
    have hone : lease.counting = 1 :=
      Nat.le_antisymm honce (Nat.one_le_iff_ne_zero.mpr hcounting)
    refine hs.setLease hlease ?_ (by simp [hone]) fun hclosed => ?_
    · rw [hcounted]
      simp [Lease.settled, hone]
    · rw [(hs.opened hmem hcounted).1] at hclosed
      cases hclosed

theorem Inv.shutdownCall (hs : Inv s) (hfree : s.native ≠ .closing) : Inv s.shutdown := by
  unfold State.shutdown
  split
  · rename_i hclosed
    refine hs.note (by simp) (by simp) fun _ => ?_
    have hnative := hs.closed.mp hclosed
    cases hn : s.native with
    | opened => exact absurd hn hnative
    | closing => exact absurd hn hfree
    | destroyed => rfl
  · rename_i hopen
    split
    · exact hs.note (by simp) (by simp) (by simp)
    · rename_i hnone
      have hclosed : s.closed = false := Bool.eq_false_iff.mpr hopen
      have hopened : s.native = .opened := not_not.mp fun hnot => hopen (hs.closed.mpr hnot)
      refine ⟨hs.counted, hs.once, by simp [State.note], fun _ => ?_, ?_, ?_, ?_⟩
      · have hcount := hs.counted
        change s.attached = 0
        omega
      · intro i native hmem
        exact hs.attach i native (by simpa [State.note] using hmem)
      · have hzero := hs.close
        rw [hclosed] at hzero
        rw [State.note, closes, List.countP_append]
        exact congrArg (· + 1) hzero
      · intro hmem
        have hold := hs.shutdown (by simpa [State.note] using hmem)
        rw [hopened] at hold
        cases hold

theorem Inv.closed_return (hs : Inv s) (hclosing : s.native = .closing) (answer : Except ε Unit) :
    Inv (s.closeReturned answer) := by
  have hclosed : s.closed = true := hs.closed.mpr (by simp [hclosing])
  refine Inv.note (s := { s with native := .destroyed }) ?_ (by simp) (by simp) fun _ => rfl
  exact { hs with closed := by simp [hclosed], shutdown := fun _ => rfl }

theorem step_inv {label : Label ε} (hs : Inv s) (h : step label s = some s') : Inv s' := by
  cases label with
  | acquire =>
    simp only [step] at h
    split at h <;> cases h
    exact hs.acquire
  | attach i answer =>
    obtain ⟨lease, hlease, rfl⟩ := Option.map_eq_some_iff.mp h
    exact hs.attachLease hlease answer
  | runtimeClose i =>
    obtain ⟨lease, hlease, h⟩ := Option.bind_eq_some_iff.mp h
    split at h <;> cases h
    exact hs.setLease hlease (by simp [Lease.settled])
      (hs.once lease (List.mem_of_getElem? hlease)) hs.empty
  | exchange i =>
    obtain ⟨lease, hlease, rfl⟩ := Option.map_eq_some_iff.mp h
    exact hs.exchange hlease
  | countDown i =>
    obtain ⟨lease, hlease, h⟩ := Option.bind_eq_some_iff.mp h
    split at h
    · cases h
    · rename_i hready
      cases h
      exact hs.countDown hlease fun hzero => hready (.inr hzero)
  | shutdown =>
    simp only [step] at h
    split at h
    · cases h
    · rename_i hfree
      cases h
      exact hs.shutdownCall hfree
  | closeReturned answer =>
    simp only [step] at h
    split at h
    · rename_i hclosing
      cases h
      exact hs.closed_return hclosing answer
    · cases h

theorem reachable_inv (hs : (system ε).Reachable s) : Inv s := by
  refine hs.invariant ?_ ?_
  · rintro s rfl
    exact inv_make
  · intro label s s' _ hs h
    exact step_inv hs h

theorem Lease.released_of_settled (h : lease.settled = true) : lease.released = true :=
  (Bool.and_eq_true_iff.mp h).1

/-- **The count of a shared runtime.** The count is the number of leases that nobody has counted
down, however many threads release one of them, and from the moment `shutdown` begins to close
the runtime there is none. So an attach through a lease that is not released finds the runtime
open. It is closed once at most, every `Ok` of a shutdown comes after that, and a shutdown is
refused only while a lease is counted. -/
theorem shared_runtime_counts (hs : (system ε).Reachable s) :
    s.attached = outstanding s.leases ∧
      (s.native ≠ .opened → ∀ lease ∈ s.leases, lease.released = true ∧ lease.settled = true) ∧
      (∀ i native, .attach i false native ∈ s.trace → native = .opened) ∧
      closes s.trace ≤ 1 ∧ (.shutdown (.ok ()) ∈ s.trace → s.native = .destroyed) ∧
      (s.native = .opened → (∀ lease ∈ s.leases, lease.settled = true) →
        ∃ s', step .shutdown s = some s' ∧ s'.native = .closing) := by
  have hinv := reachable_inv hs
  refine ⟨hinv.counted, ?_, hinv.attach, ?_, hinv.shutdown, ?_⟩
  · intro hnative lease hlease
    have hsettled : lease.settled = true := by
      refine (Bool.eq_false_or_eq_true _).resolve_right fun hcounted => ?_
      exact hnative (hinv.opened hlease hcounted).2
    exact ⟨Lease.released_of_settled hsettled, hsettled⟩
  · rw [hinv.close]
    exact Bool.toNat_le _
  · intro hopened hall
    have hclosed : s.closed = false :=
      Bool.eq_false_iff.mpr fun hclosed => hinv.closed.mp hclosed hopened
    have hzero : s.attached = 0 := by
      rw [hinv.counted, outstanding, List.countP_eq_zero.mpr (by simpa using hall)]
      rfl
    refine ⟨s.shutdown, by simp [step, hopened], ?_⟩
    simp [State.shutdown, hclosed, hzero, State.note]

/-- Two threads release the only lease; it is counted down once, and the runtime is closed. -/
theorem shared_runtime_counts_released : ∃ s : State Unit, (system Unit).Reachable s ∧
    s.native = .destroyed ∧ s.attached = 0 ∧ closes s.trace ≤ 1 := by
  obtain ⟨s, hs, hnative, hattached⟩ : ∃ s : State Unit, (system Unit).replay
      [.acquire, .attach 0 (.ok ()), .runtimeClose 0, .exchange 0, .exchange 0, .countDown 0,
        .shutdown, .closeReturned (.ok ()), .shutdown] .make = some s ∧
      s.native = .destroyed ∧ s.attached = 0 := ⟨_, rfl, rfl, rfl⟩
  have hreach := Lib.Transitions.Reachable.replay (.start rfl) hs
  exact ⟨s, hreach, hnative, hattached, (shared_runtime_counts hreach).2.2.2.1⟩

/-! ## Users that keep the order

The runtime does not know the graphs that run on it. That none is left when it closes is a promise
of its users, stated as a condition on their steps. -/

/-- A graph is attached before its lease is released, and a lease is released after its graphs
are closed: `shutdown` of `Native_backend`, and the failure path of `Native.create`. -/
def graphsFirst (s : State ε) : Label ε → Bool
  | .attach i _ => s.leases[i]?.all fun lease => !lease.released
  | .exchange i => s.leases[i]?.all fun lease => lease.graphs == 0
  | _ => true

theorem released_no_graphs (hs : (system ε).ReachableIf (graphsFirst · ·) s) :
    ∀ lease ∈ s.leases, lease.released = true → lease.graphs = 0 := by
  refine hs.invariant
    (I := fun s => ∀ lease ∈ s.leases, lease.released = true → lease.graphs = 0) ?_ ?_
  · rintro s rfl lease hmem
    cases hmem
  · intro label s s' _ hall hok h
    -- Where a lease changes, the new one is as it should be.
    have hset : ∀ {i : Nat} {new : Lease}, (new.released = true → new.graphs = 0) →
        ∀ lease ∈ s.leases.set i new, lease.released = true → lease.graphs = 0 := by
      intro i new hnew lease hmem
      rcases List.mem_or_eq_of_mem_set hmem with hmem | rfl
      · exact hall lease hmem
      · exact hnew
    cases label with
    | acquire =>
      simp only [system, step] at h
      split at h <;> cases h
      unfold State.acquire
      split
      · exact hall
      · intro lease hmem
        rcases List.mem_append.mp hmem with hmem | hmem
        · exact hall lease hmem
        · simp [List.mem_singleton.mp hmem, Lease.fresh]
    | attach i answer =>
      obtain ⟨lease, hlease, rfl⟩ := Option.map_eq_some_iff.mp h
      have hlive : lease.released = false := by simpa [graphsFirst, hlease] using hok
      refine hset fun hreleased => ?_
      rw [hlive] at hreleased
      cases hreleased
    | runtimeClose i =>
      obtain ⟨lease, hlease, h⟩ := Option.bind_eq_some_iff.mp h
      split at h <;> cases h
      refine hset fun hreleased => ?_
      have hzero := hall lease (List.mem_of_getElem? hlease) hreleased
      simp [hzero]
    | exchange i =>
      obtain ⟨lease, hlease, rfl⟩ := Option.map_eq_some_iff.mp h
      have hzero : lease.graphs = 0 := by simpa [graphsFirst, hlease] using hok
      exact hset fun _ => hzero
    | countDown i =>
      obtain ⟨lease, hlease, h⟩ := Option.bind_eq_some_iff.mp h
      split at h <;> cases h
      exact hset (hall lease (List.mem_of_getElem? hlease))
    | shutdown =>
      simp only [system, step] at h
      split at h <;> cases h
      unfold State.shutdown
      split
      · exact hall
      · split <;> exact hall
    | closeReturned answer =>
      simp only [system, step] at h
      split at h <;> cases h
      exact hall

/-- **Graphs end before their runtime.** Under supervisors that close their graphs before they
release their leases, no graph is left on the runtime when its native close begins, nor is one
attached afterwards. -/
theorem graphs_end_first (hs : (system ε).ReachableIf (graphsFirst · ·) s)
    (hclosing : s.native ≠ .opened) : ∀ lease ∈ s.leases, lease.graphs = 0 := by
  intro lease hlease
  have hinv := reachable_inv hs.reachable
  refine released_no_graphs hs lease hlease (Lease.released_of_settled ?_)
  refine (Bool.eq_false_or_eq_true _).resolve_right fun hcounted => ?_
  exact hclosing (hinv.opened hlease hcounted).2

/-- One supervisor that ends before the shutdown. -/
theorem graphs_end_first_one : ∃ s : State Unit, (system Unit).ReachableIf (graphsFirst · ·) s ∧
    s.native = .closing ∧ s.leases.length = 1 ∧ ∀ lease ∈ s.leases, lease.graphs = 0 := by
  obtain ⟨s, hs, hnative, hlength⟩ : ∃ s : State Unit, (system Unit).replayIf (graphsFirst · ·)
      [.acquire, .attach 0 (.ok ()), .runtimeClose 0, .exchange 0, .countDown 0, .shutdown] .make =
        some s ∧ s.native = .closing ∧ s.leases.length = 1 := ⟨_, rfl, rfl, rfl⟩
  have hreach := Lib.Transitions.ReachableIf.replay (.start rfl) hs
  exact ⟨s, hreach, hnative, hlength, graphs_end_first hreach (by simp [hnative])⟩

end OcamlTemporal.Mailbox.SharedRuntime
