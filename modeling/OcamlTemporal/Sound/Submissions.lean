import OcamlTemporal.Bridge.Submissions
import OcamlTemporal.Sound.ClientCalls

/-!
# OcamlTemporal.Sound.Submissions

The admission of client calls keeps its limits under every interleaving. The registry helps the
owner: whatever other threads do to it, the calls of the owner there only become fewer
(`Shrinks`), so a check that has passed stays passed until the owner registers.
-/

namespace OcamlTemporal.Bridge.Submissions

open ClientCalls (Failure Operation maxCallId exhaustedFailure reserveFailure)
open Protocol (Bytes StartWorkflowRequest WaitWorkflowRequest sameStartRequest)

variable {limits : ClientLimits} {owner : Nat}

/-! ## The registry -/

/-- What everything but a registration of the owner does to the registry. -/
structure Shrinks (owner : Nat) (r r' : ClientCalls.State) : Prop where
  perOwner_le : r'.perOwner owner ≤ r.perOwner owner
  ownCalls : ∀ c ∈ r'.ownCalls owner, c ∈ r.ownCalls owner
  registrations_eq : registrations owner r' = registrations owner r

variable {o : Nat} {op : ClientCalls.Op} {r r' : ClientCalls.State} {reserved : Bool}
  {calls : List Nat} {s s' : State} {label : Nat × ClientCalls.Op}

theorem perOwner_le_of_step (h : ClientCalls.Step o r op r')
    (hop : o ≠ owner ∨ ∀ call reserved, op ≠ .insert call reserved) :
    r'.perOwner owner ≤ r.perOwner owner := by
  cases h with
  | @insert call reserved =>
    rcases hop with hother | hop
    · simp [ClientCalls.State.log, Ne.symm hother]
    · exact absurd rfl (hop call reserved)
  | retire _ hremoved | release _ _ _ hremoved =>
    obtain ⟨k, -, hcount⟩ := hremoved.counts owner
    exact hcount.trans_le (Nat.sub_le _ _)
  | _ => exact Nat.le_refl _

theorem ownCalls_of_step (h : ClientCalls.Step o r op r')
    (hop : o ≠ owner ∨ ∀ call reserved, op ≠ .insert call reserved) {c : Nat}
    (hc : c ∈ r'.ownCalls owner) : c ∈ r.ownCalls owner := by
  obtain ⟨registered, hfind, howner⟩ := ClientCalls.mem_ownCalls.mp hc
  rcases h.find?_cases hfind with ⟨before, hbefore, hsame⟩ | ⟨⟨reserved, hinsert⟩, -, hnew, -⟩
  · exact ClientCalls.mem_ownCalls.mpr ⟨before, hbefore, hsame.trans howner⟩
  · rcases hop with hother | hop
    · rw [hnew] at howner
      exact absurd howner hother
    · exact absurd hinsert (hop c reserved)

theorem registrations_append (r : ClientCalls.State) (o : Nat) (e : ClientCalls.Event) :
    registrations owner (r.log o e) =
      registrations owner r + if isRegistration owner (o, e) then 1 else 0 := by
  simp only [registrations, ClientCalls.State.log, List.countP_append, List.countP_singleton]

theorem registrations_of_step (h : ClientCalls.Step o r op r')
    (hop : o ≠ owner ∨ ∀ call reserved, op ≠ .insert call reserved) :
    registrations owner r' = registrations owner r := by
  cases h with
  | @insert call reserved =>
    rcases hop with hother | hop
    · rw [registrations_append]
      simp [registrations, isRegistration, hother]
    · exact absurd rfl (hop call reserved)
  | finish _ hevents =>
    simp only [registrations, List.countP_append, Nat.add_eq_left, List.countP_eq_zero]
    intro e he
    obtain ⟨eo, ev⟩ := e
    rcases (hevents _ he).2 with hev | ⟨call, hev⟩ <;> cases hev <;> simp [isRegistration]
  | refuse | orphan | publish | miss | elapse | retire | releaseMiss | count | list =>
    simp [registrations, ClientCalls.State.endAwait, ClientCalls.State.log,
      ClientCalls.State.setSlot, ClientCalls.State.notifyAll, isRegistration]
  | _ => rfl

theorem Shrinks.of_step (h : ClientCalls.State.step (o, op) r = some r')
    (hop : o ≠ owner ∨ ∀ call reserved, op ≠ .insert call reserved) : Shrinks owner r r' :=
  have hstep := ClientCalls.step_cases h
  ⟨perOwner_le_of_step hstep hop, fun _ => ownCalls_of_step hstep hop,
    registrations_of_step hstep hop⟩

theorem Shrinks.of_refused {call : Nat}
    (h : ClientCalls.State.step (owner, .insert call reserved) r = some r')
    (hrefused : call ≥ maxCallId ∨ reserved = false) : Shrinks owner r r' := by
  have hlogged : ∃ failure, r' = { r with fetched := r.fetched.erase (owner, call) }.log owner
      (.refused failure) := by
    simp only [ClientCalls.State.step] at h
    split_ifs at h with hfetched hmax hreserved
    · exact ⟨_, (Option.some.inj h).symm⟩
    · rcases hrefused with hmax' | hfalse
      · exact absurd hmax' hmax
      · rw [hfalse] at hreserved
        cases hreserved
    · exact ⟨_, (Option.some.inj h).symm⟩
  obtain ⟨failure, rfl⟩ := hlogged
  refine ⟨Nat.le_refl _, fun _ hc => hc, ?_⟩
  rw [registrations_append]
  simp [registrations, isRegistration]

/-- What a registration of the owner does to the registry. -/
structure Grows (owner call : Nat) (r r' : ClientCalls.State) : Prop where
  perOwner_eq : r'.perOwner owner = r.perOwner owner + 1
  ownCalls : ∀ c ∈ r'.ownCalls owner, c = call ∨ c ∈ r.ownCalls owner
  registrations_eq : registrations owner r' = registrations owner r + 1

theorem Grows.of_step {call : Nat}
    (h : ClientCalls.State.step (owner, .insert call true) r = some r') (hcall : call < maxCallId) :
    Grows owner call r r' := by
  have hcases := ClientCalls.step_cases h
  simp only [ClientCalls.State.step] at h
  split_ifs at h with hfetched hmax
  · omega
  obtain rfl := Option.some.inj h
  refine ⟨?_, fun c hc => ?_, ?_⟩
  · simp [ClientCalls.State.log, ClientCalls.State.setSlot]
  · obtain ⟨registered, hfind, howner⟩ := ClientCalls.mem_ownCalls.mp hc
    rcases hcases.find?_cases hfind with ⟨before, hbefore, hsame⟩ | ⟨⟨reserved, hinsert⟩, -⟩
    · exact .inr (ClientCalls.mem_ownCalls.mpr ⟨before, hbefore, hsame.trans howner⟩)
    · injection hinsert with hcall
      exact .inl hcall.symm
  · rw [registrations_append]
    simp [registrations, ClientCalls.State.setSlot, isRegistration]

/-! ## The count of the registry -/

/-- An owner has no more registered calls than its count says. With identifiers used twice it
may have fewer. -/
def AtMostCounted (r : ClientCalls.State) : Prop := ∀ o, (r.ownCalls o).length ≤ r.perOwner o

theorem length_erase_le (r : ClientCalls.State) (call o : Nat) :
    (((r.calls.erase call).entries.filter (·.owner = o))).length ≤ (r.ownCalls o).length := by
  rw [ClientCalls.State.ownCalls, List.length_map]
  exact (List.filter_sublist.filter _).length_le

theorem AtMostCounted.step (hr : AtMostCounted r) (h : ClientCalls.Step o r op r') :
    AtMostCounted r' := by
  cases h with
  | @insert call reserved =>
    intro p
    have hcount := hr p
    have herase := length_erase_le r call p
    simp only [ClientCalls.State.log, ClientCalls.State.ownCalls, Lib.Keyed.entries_set,
      List.length_map, Function.update_apply, List.filter_cons]
    by_cases hp : p = o
    · subst hp
      simp only [decide_true, if_true, List.length_cons]
      omega
    · simp only [hp, Ne.symm hp, decide_false, if_false, Bool.false_eq_true]
      omega
  | @attach call registered hfind =>
    intro p
    have hlength := ClientCalls.length_ownCalls_cons (Lib.Keyed.perm_of_find? hfind) p
    have hcall : registered.call = call := (Lib.Keyed.mem_iff_find?.mp hfind).2
    have hcount := hr p
    simp only [ClientCalls.State.ownCalls, List.length_map, Lib.Keyed.entries_set,
      List.filter_cons, hcall] at hcount hlength ⊢
    by_cases hp : registered.owner = p
    · simp only [hp, decide_true, if_true, List.length_cons] at hlength ⊢
      omega
    · simp only [hp, decide_false, if_false, Bool.false_eq_true] at hlength ⊢
      omega
  | retire _ hremoved | release _ _ _ hremoved =>
    intro p
    obtain ⟨k, hlength, hcount⟩ := hremoved.counts p
    exact (Nat.le_sub_of_add_le (hlength.ge.trans (hr p))).trans hcount.ge
  | _ => exact hr

/-! ## The classes of the held calls -/

def ClientRpc.scope : ClientRpc → CallScope
  | start request => .start request
  | wait request => .wait request
  | other => .bounded

theorem ClientRpc.scope_unreleased (rpc : ClientRpc) : rpc.scope.isReleased = false := by
  cases rpc <;> rfl

/-- The limits of starts and waits, and one request for each request ID. -/
structure Classes (limits : ClientLimits) (scopes : List CallScope) : Prop where
  starts_le : (requestIds scopes).card ≤ limits.pendingStarts
  waits_le : (waits scopes).toFinset.card ≤ limits.pendingWaits
  same : ∀ a ∈ starts scopes, ∀ b ∈ starts scopes, a.requestId = b.requestId →
    sameStartRequest a b = true

theorem mem_starts {scopes : List CallScope} {request : StartWorkflowRequest} :
    request ∈ starts scopes ↔ .start request ∈ scopes := by
  simp only [starts, List.mem_filterMap]
  constructor
  · rintro ⟨scope, hscope, h⟩
    cases scope with
    | start r =>
      cases h
      exact hscope
    | _ => cases h
  · exact fun h => ⟨_, h, rfl⟩

theorem mem_waits {scopes : List CallScope} {request : WaitWorkflowRequest} :
    request ∈ waits scopes ↔ .wait request ∈ scopes := by
  simp only [waits, List.mem_filterMap]
  constructor
  · rintro ⟨scope, hscope, h⟩
    cases scope with
    | wait r =>
      cases h
      exact hscope
    | _ => cases h
  · exact fun h => ⟨_, h, rfl⟩

theorem mem_requestIds {scopes : List CallScope} {id : Bytes} :
    id ∈ requestIds scopes ↔ ∃ request, .start request ∈ scopes ∧ request.requestId = id := by
  simp only [requestIds, List.mem_toFinset, List.mem_map, mem_starts]

/-- Fewer calls are within the limits; a released one belongs to no class. -/
theorem Classes.mono {scopes scopes' : List CallScope} (h : Classes limits scopes)
    (hsub : ∀ scope ∈ scopes', scope.isReleased = false → scope ∈ scopes) :
    Classes limits scopes' := by
  have hstart : ∀ request, CallScope.start request ∈ scopes' → .start request ∈ scopes :=
    fun request hmem => hsub _ hmem rfl
  refine ⟨?_, ?_, fun a ha b hb => ?_⟩
  · refine (Finset.card_le_card fun id hid => ?_).trans h.starts_le
    obtain ⟨request, hmem, hid⟩ := mem_requestIds.mp hid
    exact mem_requestIds.mpr ⟨request, hstart request hmem, hid⟩
  · refine (Finset.card_le_card fun request hrequest => ?_).trans h.waits_le
    rw [List.mem_toFinset, mem_waits] at hrequest ⊢
    exact hsub _ hrequest rfl
  · rw [mem_starts] at ha hb
    exact h.same a (mem_starts.mpr (hstart a ha)) b (mem_starts.mpr (hstart b hb))

theorem classes_nil : Classes limits [] := by
  refine ⟨?_, ?_, fun a ha => (by cases ha)⟩
  · simp [requestIds, starts]
  · simp [waits]

/-- Two requests that are the same differ in their RPC timeouts only. -/
theorem sameStartRequest_iff {a b : StartWorkflowRequest} :
    sameStartRequest a b = true ↔ { a with rpcTimeoutMs := b.rpcTimeoutMs } = b := by
  obtain ⟨⟩ := a
  obtain ⟨⟩ := b
  simp [sameStartRequest]

theorem sameStartRequest_comm (a b : StartWorkflowRequest) :
    sameStartRequest a b = sameStartRequest b a := by
  simp only [sameStartRequest, eq_comm]

/-- A request that passed the check of its class is within the limits together with the others. -/
theorem Classes.cons {scopes : List CallScope} {rpc : ClientRpc} {scope : CallScope}
    (h : Classes limits scopes) (hscope : callScope limits scopes rpc = .ok scope) :
    scope = rpc.scope ∧ Classes limits (scope :: scopes) := by
  cases rpc with
  | start request =>
    rw [callScope] at hscope
    split at hscope
    · cases hscope
    next hsame =>
      split at hscope
      · cases hscope
      next hlimit =>
        obtain ⟨rfl⟩ := hscope
        have hids : requestIds (.start request :: scopes) =
            insert request.requestId (requestIds scopes) := by
          simp [requestIds, starts]
        have hother : ∀ b ∈ starts scopes, b.requestId = request.requestId →
            sameStartRequest b request = true := by
          intro b hb hid
          by_contra hne
          exact hsame (List.any_eq_true.mpr ⟨b, hb, by simp [hid, hne]⟩)
        refine ⟨rfl, ?_, h.waits_le, ?_⟩
        · rw [hids]
          by_cases hmem : request.requestId ∈ requestIds scopes
          · rw [Finset.insert_eq_of_mem hmem]
            exact h.starts_le
          · have hlt : (requestIds scopes).card < limits.pendingStarts := by
              by_contra hge
              exact hlimit ⟨Nat.le_of_not_lt hge, hmem⟩
            rw [Finset.card_insert_of_notMem hmem]
            exact hlt
        · intro a ha b hb hid
          rcases List.mem_cons.mp ha with hnew | hold <;>
            rcases List.mem_cons.mp hb with hnew' | hold'
          · rw [hnew, hnew']
            simp [sameStartRequest]
          · rw [hnew, sameStartRequest_comm]
            exact hother b hold' (hid.symm.trans (congrArg _ hnew))
          · rw [hnew']
            exact hother a hold (hid.trans (congrArg _ hnew'))
          · exact h.same a hold b hold' hid
  | wait request =>
    rw [callScope] at hscope
    split at hscope
    · cases hscope
    next hlimit =>
      obtain ⟨rfl⟩ := hscope
      refine ⟨rfl, h.starts_le, ?_, h.same⟩
      have hwaits : (waits (.wait request :: scopes)).toFinset =
          insert request (waits scopes).toFinset := by
        simp [waits]
      rw [hwaits]
      by_cases hmem : request ∈ (waits scopes).toFinset
      · rw [Finset.insert_eq_of_mem hmem]
        exact h.waits_le
      · have hlt : (waits scopes).toFinset.card < limits.pendingWaits := by
          by_contra hge
          exact hlimit ⟨Nat.le_of_not_lt hge, hmem⟩
        rw [Finset.card_insert_of_notMem hmem]
        exact hlt
  | other =>
    obtain ⟨rfl⟩ := hscope
    exact ⟨rfl, h.starts_le, h.waits_le, h.same⟩

/-- A handle that is not of the given calls stays as it is. -/
theorem mem_release {pending : PendingCalls} {entry : PendingCall} (hentry : entry ∈ pending)
    (hcalls : entry.call ∉ calls) : entry ∈ release pending calls :=
  Lib.Keyed.mem_map.mpr ⟨entry, hentry, if_neg hcalls⟩

theorem mem_of_mem_release {pending : PendingCalls} {entry : PendingCall}
    (hentry : entry ∈ release pending calls) (hscope : entry.scope.isReleased = false) :
    entry ∈ pending := by
  obtain ⟨before, hbefore, rfl⟩ := Lib.Keyed.mem_map.mp hentry
  by_cases hmem : before.call ∈ calls
  · rw [if_pos hmem] at hscope
    cases hscope
  · rw [if_neg hmem]
    exact hbefore

/-! ## The invariant

The checks of a submission are made in one phase and used in a later one, with other threads in
between. `Inv` says by phase which checks still count: a slot that is checked for is reserved, as
`hasRoom` for the handles and as `mayRegister` for the registry. -/

namespace Phase

/-- The request in hand and its scope, once the limit of its class has been checked. -/
def checked : Phase → Option (ClientRpc × CallScope)
  | idle | retaining .. | marking _ => none
  | reaping rpc scope _ | counting rpc scope | fetching rpc scope | registering rpc scope _
  | spawning rpc scope _ | attaching rpc scope _ => some (rpc, scope)

def hasRoom : Phase → Bool
  | fetching .. | registering .. | spawning .. | attaching .. => true
  | _ => false

/-- The ceiling of the registered calls has been checked, and the call is not registered yet. -/
def mayRegister : Phase → Bool
  | fetching .. | registering .. => true
  | _ => false

def registered : Phase → Option (Nat × ClientRpc)
  | spawning rpc _ call | attaching rpc _ call => some (call, rpc)
  | _ => none

def made : Phase → Nat × Nat
  | spawning .. => (0, 1)
  | attaching .. => (1, 1)
  | _ => (0, 0)

def isReaped : Phase → Bool
  | reaping .. | counting .. => true
  | _ => false

end Phase

def held (s : State) : List CallScope :=
  (s.phase.checked.map (·.2)).toList ++ scopes s.pendingCalls

/-- A live call is the one in hand or has a handle with its scope. -/
def Held (s : State) (c : Nat) : Prop :=
  (∃ rpc, s.phase.registered = some (c, rpc)) ∨
    ∃ entry ∈ s.pendingCalls, entry.call = c ∧
      ∃ rpc, s.requests c = some rpc ∧ entry.scope = rpc.scope

/-- What holds between the steps of a submission. The handles and the registered calls stay within
the ceiling together with the slot in hand, every live call is held with its scope, and a submission
that was rejected made neither a task nor a registration. -/
structure Inv (limits : ClientLimits) (owner : Nat) (s : State) : Prop where
  scope_eq : ∀ rpc scope, s.phase.checked = some (rpc, scope) → scope = rpc.scope
  handles : s.pendingCalls.entries.length + s.phase.hasRoom.toNat ≤ limits.inFlightCalls
  counted : s.registry.perOwner owner + s.phase.mayRegister.toNat ≤ limits.inFlightCalls
  reaped : s.phase.isReaped = true → s.pendingCalls.entries.length < limits.inFlightCalls ∨
    ∀ entry ∈ s.pendingCalls, entry.scope.isReleased = false
  classes : Classes limits (held s)
  live : ∀ c ∈ s.registry.ownCalls owner, s.tasks c = some .running → Held s c
  request : ∀ call rpc, s.phase.registered = some (call, rpc) → s.requests call = some rpc
  made : s.phase ≠ .idle → s.spawned = s.base.1 + s.phase.made.1 ∧
    registrations owner s.registry = s.base.2 + s.phase.made.2
  answers : ∀ answer ∈ s.answers, ∀ failure, answer.result = .error failure →
    answer.tasks = 0 ∧ answer.registrations = 0

theorem inv_init : Inv limits owner State.init where
  scope_eq rpc scope h := by cases h
  handles := Nat.zero_le _
  counted := Nat.zero_le _
  reaped h := by cases h
  classes := classes_nil
  live c hc := by cases hc
  request call rpc h := by cases h
  made h := absurd rfl h
  answers answer h := by cases h

namespace Inv

variable {s : State}

theorem shrink (h : Inv limits owner s) {registry : ClientCalls.State}
    (hshrinks : Shrinks owner s.registry registry) : Inv limits owner { s with registry } :=
  { h with
    counted := (Nat.add_le_add_right hshrinks.perOwner_le _).trans h.counted
    live := fun c hc => h.live c (hshrinks.ownCalls c hc)
    made := fun hphase => by
      rw [hshrinks.registrations_eq]
      exact h.made hphase }

theorem finish (h : Inv limits owner s) (call : Nat) :
    Inv limits owner { s with tasks := Function.update s.tasks call (some .finished) } :=
  { h with
    live := fun c hc hrunning => by
      refine h.live c hc ?_
      by_cases hcall : c = call
      · subst hcall
        simp at hrunning
      · simpa [Function.update_of_ne hcall] using hrunning }

/-- A phase in which nothing is checked and nothing was made. -/
structure Fresh (phase : Phase) : Prop where
  checked : phase.checked = none
  hasRoom : phase.hasRoom = false
  mayRegister : phase.mayRegister = false
  isReaped : phase.isReaped = false
  registered : phase.registered = none
  made : phase.made = (0, 0)

/-- From a state with no registered call in hand to a phase in which nothing is checked. -/
theorem restart (h : Inv limits owner s) (hregistered : s.phase.registered = none) {phase : Phase}
    (hfresh : Fresh phase) {base : Nat × Nat} {answers : List Answer}
    (hmade : phase ≠ .idle → s.spawned = base.1 ∧ registrations owner s.registry = base.2)
    (hanswers : ∀ answer ∈ answers, ∀ failure, answer.result = .error failure →
      answer.tasks = 0 ∧ answer.registrations = 0) :
    Inv limits owner { s with phase, base, answers } := by
  have hhandles := h.handles
  have hcounted := h.counted
  refine ⟨?_, ?_, ?_, ?_, ?_, ?_, ?_, ?_, hanswers⟩
  · intro rpc scope hchecked
    cases hfresh.checked.symm.trans hchecked
  · dsimp only
    rw [hfresh.hasRoom, Bool.toNat_false]
    omega
  · dsimp only
    rw [hfresh.mayRegister, Bool.toNat_false]
    omega
  · intro hreaped
    cases hfresh.isReaped.symm.trans hreaped
  · refine h.classes.mono fun scope hscope _ => List.mem_append_right _ ?_
    rw [held, hfresh.checked] at hscope
    exact hscope
  · intro c hc hrunning
    rcases h.live c hc hrunning with ⟨rpc, hrpc⟩ | hentry
    · rw [hregistered] at hrpc
      cases hrpc
    · exact .inr hentry
  · intro call rpc hcall
    cases hfresh.registered.symm.trans hcall
  · intro hphase
    rw [hfresh.made]
    exact hmade hphase

theorem refuse (h : Inv limits owner s) (hphase : s.phase ≠ .idle) (hmade : s.phase.made = (0, 0))
    (hregistered : s.phase.registered = none) (failure : Failure) :
    Inv limits owner (s.answer owner (.error failure)) := by
  obtain ⟨hspawned, hregistrations⟩ := h.made hphase
  rw [hmade] at hspawned hregistrations
  refine h.restart hregistered ⟨rfl, rfl, rfl, rfl, rfl, rfl⟩ (fun hidle => absurd rfl hidle) ?_
  intro answer hanswer
  rcases List.mem_cons.mp hanswer with hnew | hold
  · subst hnew
    intro _ _
    dsimp only at hspawned hregistrations ⊢
    omega
  · exact h.answers answer hold

theorem submit (h : Inv limits owner s) (hphase : s.phase = .idle)
    (request : Except Failure ClientRpc) : Inv limits owner (s.submit owner request) := by
  have hregistered : s.phase.registered = none := by rw [hphase]; rfl
  cases request with
  | error failure =>
    refine h.restart hregistered ⟨rfl, rfl, rfl, rfl, rfl, rfl⟩ (fun hidle => absurd rfl hidle) ?_
    intro answer hanswer
    rcases List.mem_cons.mp hanswer with hnew | hold
    · subst hnew
      intro _ _
      exact ⟨Nat.sub_self _, Nat.sub_self _⟩
    · exact h.answers answer hold
  | ok rpc =>
    exact h.restart hregistered ⟨rfl, rfl, rfl, rfl, rfl, rfl⟩ (fun _ => ⟨rfl, rfl⟩) h.answers

variable {call : Nat} {rpc : ClientRpc} {scope : CallScope}

theorem erase (h : Inv limits owner s) (hreaped : s.phase.isReaped = false)
    (hfinished : s.tasks call = some .finished) :
    Inv limits owner { s with pendingCalls := s.pendingCalls.erase call } := by
  have hle : (s.pendingCalls.erase call).entries.length ≤ s.pendingCalls.entries.length :=
    List.length_filter_le _ _
  refine { h with
    handles := (Nat.add_le_add_right hle _).trans h.handles
    reaped := fun hphase => ?_
    classes := h.classes.mono fun scope hscope _ => ?_
    live := fun c hc hrunning => ?_ }
  · cases hreaped.symm.trans hphase
  · rcases List.mem_append.mp hscope with hhand | hscope
    · exact List.mem_append_left _ hhand
    · obtain ⟨entry, hentry, rfl⟩ := List.mem_map.mp hscope
      exact List.mem_append_right _ (List.mem_map_of_mem (Lib.Keyed.mem_erase.mp hentry).1)
  · rcases h.live c hc hrunning with hhand | ⟨entry, hentry, hcall, hrequest⟩
    · exact .inl hhand
    · refine .inr ⟨entry, Lib.Keyed.mem_erase.mpr ⟨hentry, fun hkey => ?_⟩, hcall, hrequest⟩
      change s.tasks c = _ at hrunning
      rw [← hcall, hkey, hfinished] at hrunning
      cases hrunning

/-- A step of the phase alone, between phases about which the same is known. -/
theorem advance (h : Inv limits owner s) {phase : Phase} (hidle : s.phase ≠ .idle)
    (hchecked : phase.checked = s.phase.checked) (hroom : phase.hasRoom = s.phase.hasRoom)
    (hmay : phase.mayRegister = s.phase.mayRegister)
    (hreaped : phase.isReaped = true → s.phase.isReaped = true)
    (hregistered : phase.registered = s.phase.registered) (hmade : phase.made = s.phase.made) :
    Inv limits owner { s with phase } := by
  refine ⟨?_, ?_, ?_, fun hphase => h.reaped (hreaped hphase), ?_, ?_, ?_, fun _ => ?_, h.answers⟩
  · intro rpc scope hscope
    exact h.scope_eq rpc scope (hchecked.symm.trans hscope)
  · dsimp only
    rw [hroom]
    exact h.handles
  · dsimp only
    rw [hmay]
    exact h.counted
  · have hclasses := h.classes
    rw [held, ← hchecked] at hclasses
    exact hclasses
  · intro c hc hrunning
    rcases h.live c hc hrunning with ⟨rpc, hrpc⟩ | hentry
    · exact .inl ⟨rpc, hregistered.trans hrpc⟩
    · exact .inr hentry
  · intro call rpc hcall
    exact h.request call rpc (hregistered.symm.trans hcall)
  · dsimp only
    rw [hmade]
    exact h.made hidle

theorem released (h : Inv limits owner s) (hphase : s.phase = .marking rpc) {calls : List Nat}
    (hcalls : ∀ c ∈ calls, c ∉ s.registry.ownCalls owner) :
    Inv limits owner { s with pendingCalls := release s.pendingCalls calls } := by
  have hreaped : s.phase.isReaped = false := by rw [hphase]; rfl
  refine { h with
    handles := ?_, reaped := fun hphase => ?_, classes := ?_, live := ?_ }
  · have hlength : (release s.pendingCalls calls).entries.length = s.pendingCalls.entries.length :=
      List.length_map _
    rw [hlength]
    exact h.handles
  · cases hreaped.symm.trans hphase
  · refine h.classes.mono fun scope hscope hreleased => ?_
    rcases List.mem_append.mp hscope with hhand | hscope
    · exact List.mem_append_left _ hhand
    · obtain ⟨entry, hentry, rfl⟩ := List.mem_map.mp hscope
      exact List.mem_append_right _ (List.mem_map_of_mem (mem_of_mem_release hentry hreleased))
  · intro c hc hrunning
    rcases h.live c hc hrunning with hhand | ⟨entry, hentry, hcall, hrequest⟩
    · exact .inl hhand
    · refine .inr ⟨entry, mem_release hentry fun hmem => ?_, hcall, hrequest⟩
      exact hcalls entry.call hmem (hcall ▸ hc)

theorem mark (h : Inv limits owner s) (hphase : s.phase = .marking rpc) {calls : List Nat}
    (hcalls : ∀ c ∈ calls, c ∉ s.registry.ownCalls owner) :
    Inv limits owner (s.mark limits owner rpc calls) := by
  have hreleased := h.released hphase hcalls
  obtain ⟨registry, pending, tasks, _, requests, spawned, base, answers⟩ := s
  cases hphase
  rw [State.mark]
  split
  next failure hscope => exact hreleased.refuse nofun rfl rfl failure
  next scope hscope =>
    obtain ⟨hscope_eq, hchecked⟩ := hreleased.classes.cons hscope
    have hlive : ∀ c ∈ registry.ownCalls owner, tasks c = some .running →
        ∃ entry ∈ release pending calls, entry.call = c ∧
          ∃ rpc, requests c = some rpc ∧ entry.scope = rpc.scope := by
      intro c hc hrunning
      rcases hreleased.live c hc hrunning with ⟨rpc', hrpc⟩ | hentry
      · cases hrpc
      · exact hentry
    split
    · -- the released handles leave the map; a live call has none of them
      refine { h with
        scope_eq := ?_, handles := ?_, reaped := fun _ => .inr fun entry hentry => ?_,
        classes := ?_, live := ?_, made := fun _ => hreleased.made nofun }
      · intro rpc' scope' hsame
        cases hsame
        exact hscope_eq
      · exact (List.length_filter_le _ _).trans hreleased.handles
      · simpa using (Lib.Keyed.mem_filter.mp hentry).2
      · refine hchecked.mono fun scope' hscope' _ => ?_
        rcases List.mem_cons.mp hscope' with hhand | hscope'
        · exact hhand ▸ List.mem_cons_self
        · obtain ⟨entry, hentry, rfl⟩ := List.mem_map.mp hscope'
          exact List.mem_cons_of_mem _ (List.mem_map_of_mem (Lib.Keyed.mem_filter.mp hentry).1)
      · intro c hc hrunning
        obtain ⟨entry, hentry, hcall, rpc', hrequest, hentryScope⟩ := hlive c hc hrunning
        refine .inr ⟨entry, Lib.Keyed.mem_filter.mpr ⟨hentry, ?_⟩, hcall, rpc', hrequest,
          hentryScope⟩
        rw [hentryScope, ClientRpc.scope_unreleased]
        rfl
    next hroom =>
      refine { hreleased with
        scope_eq := fun rpc' scope' hsame => ?_
        reaped := fun _ => .inl (Nat.lt_of_not_le hroom)
        classes := hchecked
        made := fun _ => hreleased.made nofun }
      cases hsame
      exact hscope_eq

/-- Both ceilings have been checked: with the released handles out of the map, or the map below
the ceiling, there is room for the new handle. -/
theorem count (h : Inv limits owner s) (hphase : s.phase = .counting rpc scope)
    (hroom : (unreleased s.pendingCalls).length < limits.inFlightCalls) (reserved : Bool) :
    Inv limits owner (s.count limits owner rpc scope reserved) := by
  obtain ⟨registry, pending, tasks, _, requests, spawned, base, answers⟩ := s
  cases hphase
  rw [State.count]
  split
  · exact h.refuse nofun rfl rfl _
  next hcount =>
    split
    · have hlength : pending.entries.length < limits.inFlightCalls := by
        rcases h.reaped rfl with hlt | hunreleased
        · exact hlt
        · rw [unreleased, List.length_map, List.filter_eq_self.mpr] at hroom
          · exact hroom
          · intro entry hentry
            simp [hunreleased entry hentry]
      exact { h with
        handles := hlength, counted := Nat.lt_of_not_le hcount, reaped := nofun
        made := fun _ => h.made nofun }
    · exact h.refuse nofun rfl rfl _

theorem register (h : Inv limits owner s) (hphase : s.phase = .registering rpc scope call)
    {registry : ClientCalls.State} (hgrows : Grows owner call s.registry registry) :
    Inv limits owner
      { s with
        registry
        phase := .spawning rpc scope call
        requests := Function.update s.requests call (some rpc) } := by
  obtain ⟨registry, pending, tasks, _, requests, spawned, base, answers⟩ := s
  cases hphase
  refine { h with
    counted := ?_, reaped := nofun, live := fun c hc hrunning => ?_,
    request := fun call' rpc' hcall => ?_, made := fun _ => ?_ }
  · exact hgrows.perOwner_eq.trans_le h.counted
  · by_cases hcall : c = call
    · exact .inl ⟨rpc, by rw [hcall]; rfl⟩
    · rcases hgrows.ownCalls c hc with heq | hold
      · exact absurd heq hcall
      rcases h.live c hold hrunning with
        ⟨rpc', hrpc⟩ | ⟨entry, hentry, hentryCall, rpc', hrequest, hscope⟩
      · cases hrpc
      · refine .inr ⟨entry, hentry, hentryCall, rpc', ?_, hscope⟩
        exact (Function.update_of_ne hcall _ _).trans hrequest
  · cases hcall
    exact Function.update_self _ _ _
  · obtain ⟨hspawned, hregistrations⟩ := h.made nofun
    exact ⟨hspawned, hgrows.registrations_eq.trans (congrArg (· + 1) hregistrations)⟩

theorem spawn (h : Inv limits owner s) (hphase : s.phase = .spawning rpc scope call) :
    Inv limits owner
      { s with
        phase := .attaching rpc scope call
        tasks := Function.update s.tasks call (some .running)
        spawned := s.spawned + 1 } := by
  obtain ⟨registry, pending, tasks, _, requests, spawned, base, answers⟩ := s
  cases hphase
  refine { h with reaped := nofun, live := fun c hc hrunning => ?_, made := fun _ => ?_ }
  · by_cases hcall : c = call
    · exact .inl ⟨rpc, by rw [hcall]; rfl⟩
    · rcases h.live c hc ((Function.update_of_ne hcall _ _).symm.trans hrunning) with
        ⟨rpc', hrpc⟩ | hentry
      · cases hrpc
        exact absurd rfl hcall
      · exact .inr hentry
  · obtain ⟨hspawned, hregistrations⟩ := h.made nofun
    exact ⟨congrArg (· + 1) hspawned, hregistrations⟩

/-- The handle enters the map, and the submission is over. -/
theorem attach (h : Inv limits owner s) (hphase : s.phase = .attaching rpc scope call)
    (bytes : Bytes) :
    Inv limits owner
      ({ s with pendingCalls := s.pendingCalls.set ⟨call, scope⟩ }.answer owner (.ok bytes)) := by
  obtain ⟨registry, pending, tasks, _, requests, spawned, base, answers⟩ := s
  cases hphase
  have hset : (pending.set ⟨call, scope⟩).entries.length ≤ pending.entries.length + 1 := by
    rw [Lib.Keyed.entries_set, List.length_cons]
    exact Nat.succ_le_succ (List.length_filter_le _ _)
  refine ⟨fun _ _ hchecked => (by cases hchecked), hset.trans h.handles, h.counted,
    fun hreaped => (by cases hreaped), ?_, ?_, fun _ _ hcall => (by cases hcall),
    fun hidle => absurd rfl hidle, ?_⟩
  · refine h.classes.mono fun scope' hscope' _ => ?_
    obtain ⟨entry, hentry, rfl⟩ := List.mem_map.mp hscope'
    rcases Lib.Keyed.mem_set.mp hentry with rfl | ⟨hold, -⟩
    · exact List.mem_append_left _ List.mem_cons_self
    · exact List.mem_append_right _ (List.mem_map_of_mem hold)
  · intro c hc hrunning
    refine .inr ?_
    by_cases hcall : c = call
    · subst hcall
      exact ⟨_, Lib.Keyed.mem_set.mpr (.inl rfl), rfl, rpc, h.request c rpc rfl,
        h.scope_eq rpc scope rfl⟩
    · rcases h.live c hc hrunning with ⟨rpc', hrpc⟩ | ⟨entry, hentry, hentryCall, hrequest⟩
      · cases hrpc
        exact absurd rfl hcall
      · refine ⟨entry, Lib.Keyed.mem_set.mpr (.inr ⟨hentry, ?_⟩), hentryCall, hrequest⟩
        rwa [hentryCall]
  · intro answer hanswer failure hfailure
    rcases List.mem_cons.mp hanswer with hnew | hold
    · subst hnew
      cases hfailure
    · exact h.answers answer hold failure hfailure

end Inv

/-! ## Steps and runs -/

/-- A step with a critical section of the registry is one of the registry first. -/
theorem onRegistry_cases (h : s.onRegistry label = some s') :
    ∃ registry, ClientCalls.State.step label s.registry = some registry ∧
      s' = { s with registry } := by
  obtain ⟨registry, hstep, rfl⟩ := Option.map_eq_some_iff.mp h
  exact ⟨registry, hstep, rfl⟩

theorem Inv.onRegistry (hs : Inv limits owner s) (h : s.onRegistry (o, op) = some s')
    (hop : o ≠ owner ∨ ∀ call reserved, op ≠ .insert call reserved) :
    Inv limits owner s' ∧ s'.phase = s.phase ∧ s'.pendingCalls = s.pendingCalls ∧
      Shrinks owner s.registry s'.registry := by
  obtain ⟨registry, hstep, rfl⟩ := onRegistry_cases h
  have hshrinks := Shrinks.of_step hstep hop
  exact ⟨hs.shrink hshrinks, rfl, rfl, hshrinks⟩

theorem notMem_of_mem_unregistered {registry : ClientCalls.State} {c : Nat}
    (hc : c ∈ unregistered registry owner calls) : c ∉ registry.ownCalls owner := by
  intro hmem
  obtain ⟨registered, hfind, howner⟩ := ClientCalls.mem_ownCalls.mp hmem
  have hnot := (List.mem_filter.mp hc).2
  simp [hfind, howner] at hnot

theorem Inv.ownerStep (hs : Inv limits owner s) (h : s.ownerStep limits owner reserved = some s') :
    Inv limits owner s' := by
  obtain ⟨registry, pending, tasks, phase, requests, spawned, base, answers⟩ := s
  rw [State.ownerStep.eq_def] at h
  split at h <;> rename_i hphase <;> cases hphase
  · cases h
  · cases h
    exact hs.advance nofun rfl rfl rfl nofun rfl rfl
  · split at h
    next hfinished =>
      cases h
      exact (hs.erase rfl hfinished).advance nofun rfl rfl rfl nofun rfl rfl
    next =>
      cases h
      exact hs.advance nofun rfl rfl rfl nofun rfl rfl
  · obtain ⟨t, ht, rfl⟩ := Option.map_eq_some_iff.mp h
    obtain ⟨hinv, htphase, -, hshrinks⟩ := hs.onRegistry ht (.inr nofun)
    refine hinv.mark htphase fun c hc hmem => ?_
    exact notMem_of_mem_unregistered hc (hshrinks.ownCalls c hmem)
  · cases h
    exact hs.advance nofun rfl rfl rfl (fun _ => rfl) rfl rfl
  · split_ifs at h
    cases h
    exact hs.advance nofun rfl rfl rfl (fun _ => rfl) rfl rfl
  · split at h
    · cases h
      exact hs.refuse nofun rfl rfl _
    next hroom =>
      obtain ⟨t, ht, rfl⟩ := Option.map_eq_some_iff.mp h
      obtain ⟨hinv, htphase, htpending, -⟩ := hs.onRegistry ht (.inr nofun)
      refine hinv.count htphase ?_ reserved
      rw [htpending]
      exact Nat.lt_of_not_le hroom
  · obtain ⟨t, ht, rfl⟩ := Option.map_eq_some_iff.mp h
    obtain ⟨registry', hstep, rfl⟩ := onRegistry_cases ht
    exact (hs.shrink (.of_step hstep (.inr nofun))).advance nofun rfl rfl rfl nofun rfl rfl
  · obtain ⟨t, ht, rfl⟩ := Option.map_eq_some_iff.mp h
    obtain ⟨registry', hstep, rfl⟩ := onRegistry_cases ht
    rw [State.register]
    split
    next hmax => exact (hs.shrink (.of_refused hstep (.inl hmax))).refuse nofun rfl rfl _
    next hmax =>
      cases reserved with
      | true => exact hs.register rfl (Grows.of_step hstep (Nat.lt_of_not_le hmax))
      | false => exact (hs.shrink (.of_refused hstep (.inr rfl))).refuse nofun rfl rfl _
  · cases h
    exact hs.spawn rfl
  · obtain ⟨t, ht, rfl⟩ := Option.map_eq_some_iff.mp h
    obtain ⟨hinv, htphase, -, -⟩ := hs.onRegistry ht (.inr nofun)
    exact hinv.attach htphase _

theorem Inv.step {label : Label} (hs : Inv limits owner s)
    (h : State.step limits owner label s = some s') : Inv limits owner s' := by
  cases label with
  | submit request =>
    simp only [State.step] at h
    split at h
    next hphase =>
      obtain rfl := Option.some.inj h
      exact hs.submit hphase request
    · cases h
  | owner reserved => exact hs.ownerStep h
  | complete | dropGuard =>
    simp only [State.step] at h
    split_ifs at h
    exact (hs.onRegistry h (.inr nofun)).1
  | finish call =>
    simp only [State.step] at h
    split_ifs at h
    cases h
    exact hs.finish call
  | caller op =>
    simp only [State.step] at h
    split_ifs at h with hop
    refine (hs.onRegistry h (.inr fun call reserved heq => ?_)).1
    rw [heq] at hop
    cases hop
  | other o op =>
    simp only [State.step] at h
    split_ifs at h with hother
    exact (hs.onRegistry h (.inl hother)).1

theorem inv_of_reachable (hs : (system limits owner).Reachable s) : Inv limits owner s :=
  hs.invariant (fun _ hstart => hstart ▸ inv_init) fun _ _ _ _ hinv h => hinv.step h

/-! ## The registry of a run is one of the registry's own runs -/

@[simp] theorem mark_registry (s : State) (rpc : ClientRpc) (calls : List Nat) :
    (s.mark limits owner rpc calls).registry = s.registry := by
  rw [State.mark]
  split
  · rfl
  · split <;> rfl

@[simp] theorem count_registry (s : State) (rpc : ClientRpc) (scope : CallScope) (reserved : Bool) :
    (s.count limits owner rpc scope reserved).registry = s.registry := by
  rw [State.count]
  split_ifs <;> rfl

@[simp] theorem register_registry (s : State) (rpc : ClientRpc) (scope : CallScope) (call : Nat)
    (reserved : Bool) : (s.register owner rpc scope call reserved).registry = s.registry := by
  rw [State.register]
  split_ifs <;> rfl

/-- The registry stands still, or makes one of its own steps. -/
def RegistryMoves (s s' : State) : Prop :=
  s'.registry = s.registry ∨ ∃ label, ClientCalls.State.step label s.registry = some s'.registry

theorem RegistryMoves.of_onRegistry (h : s.onRegistry label = some s') : RegistryMoves s s' := by
  obtain ⟨registry, hstep, rfl⟩ := onRegistry_cases h
  exact .inr ⟨label, hstep⟩

theorem RegistryMoves.of_map {f : State → State} (h : (s.onRegistry label).map f = some s')
    (hf : ∀ t, (f t).registry = t.registry) : RegistryMoves s s' := by
  obtain ⟨t, ht, rfl⟩ := Option.map_eq_some_iff.mp h
  rw [RegistryMoves, hf]
  exact RegistryMoves.of_onRegistry ht

theorem ownerStep_registry (h : s.ownerStep limits owner reserved = some s') :
    RegistryMoves s s' := by
  rw [State.ownerStep.eq_def] at h
  split at h
  · cases h
  · cases h
    exact .inl rfl
  · split at h <;> cases h <;> exact .inl rfl
  · exact .of_map h fun t => mark_registry t _ _
  · cases h
    exact .inl rfl
  · split_ifs at h
    cases h
    exact .inl rfl
  · split at h
    · cases h
      exact .inl rfl
    · exact .of_map h fun t => count_registry t _ _ _
  · exact .of_map h fun _ => rfl
  · exact .of_map h fun t => register_registry t _ _ _ _
  · cases h
    exact .inl rfl
  · exact .of_map h fun _ => rfl

theorem step_registry {label : Label} (h : State.step limits owner label s = some s') :
    RegistryMoves s s' := by
  cases label with
  | submit request =>
    simp only [State.step] at h
    split at h
    · obtain rfl := Option.some.inj h
      cases request <;> exact .inl rfl
    · cases h
  | owner reserved => exact ownerStep_registry h
  | finish call =>
    simp only [State.step] at h
    split_ifs at h
    cases h
    exact .inl rfl
  | complete | dropGuard | caller | other =>
    simp only [State.step] at h
    split_ifs at h
    exact .of_onRegistry h

theorem registry_reachable (hs : (system limits owner).Reachable s) :
    ClientCalls.system.Reachable s.registry := by
  refine hs.project State.registry ?_ fun _ s s' _ h => ?_
  · rintro _ rfl
    rfl
  · rcases step_registry h with hsame | ⟨label, hstep⟩
    · rw [hsame]
    · exact .single ⟨label, hstep⟩

theorem atMostCounted_of_reachable (hr : ClientCalls.system.Reachable r) : AtMostCounted r := by
  refine hr.invariant ?_ ?_
  · rintro _ rfl o
    exact Nat.zero_le _
  · rintro ⟨o, op⟩ r r' - hcounted h
    exact hcounted.step (ClientCalls.step_cases h)

/-! ## The limits -/

/-- The requests of the live calls: those that are registered and whose task has not ended. -/
def liveCalls (owner : Nat) (s : State) : List ClientRpc :=
  ((s.registry.ownCalls owner).filter fun call => s.tasks call = some .running).filterMap s.requests

def liveStarts (owner : Nat) (s : State) : List StartWorkflowRequest :=
  (liveCalls owner s).filterMap fun
    | .start request => some request
    | _ => none

def liveWaits (owner : Nat) (s : State) : List WaitWorkflowRequest :=
  (liveCalls owner s).filterMap fun
    | .wait request => some request
    | _ => none

/-- The limits of one owner: on handles, registered calls, starts by request ID and waits; two live
starts with one request ID differ in their RPC timeouts only; rejected submissions left nothing
behind. -/
structure AdmissionOk (limits : ClientLimits) (owner : Nat) (s : State) : Prop where
  handles : s.pendingCalls.entries.length ≤ limits.inFlightCalls
  registered : (s.registry.ownCalls owner).length ≤ limits.inFlightCalls
  starts : ((liveStarts owner s).map (·.requestId)).toFinset.card ≤ limits.pendingStarts
  waits : (liveWaits owner s).toFinset.card ≤ limits.pendingWaits
  same : ∀ a ∈ liveStarts owner s, ∀ b ∈ liveStarts owner s, a.requestId = b.requestId →
    { a with rpcTimeoutMs := b.rpcTimeoutMs } = b
  rejected : ∀ answer ∈ s.answers, ∀ failure, answer.result = .error failure →
    answer.tasks = 0 ∧ answer.registrations = 0

theorem Inv.scope_mem_held (hs : Inv limits owner s) {rpc : ClientRpc}
    (hrpc : rpc ∈ liveCalls owner s) : rpc.scope ∈ held s := by
  obtain ⟨call, hcall, hrequest⟩ := List.mem_filterMap.mp hrpc
  obtain ⟨hregistered, hrunning⟩ := List.mem_filter.mp hcall
  rcases hs.live call hregistered (of_decide_eq_true hrunning) with
    ⟨rpc', hhand⟩ | ⟨entry, hentry, -, rpc', hrequest', hscope⟩
  · obtain rfl := Option.some.inj (hrequest.symm.trans (hs.request call rpc' hhand))
    have hchecked : ∃ scope, s.phase.checked = some (rpc, scope) := by
      cases hphase : s.phase with
      | spawning rpc' scope call' =>
        rw [hphase] at hhand
        exact ⟨scope, by rw [(Prod.mk.inj (Option.some.inj hhand)).2.symm]; rfl⟩
      | attaching rpc' scope call' =>
        rw [hphase] at hhand
        exact ⟨scope, by rw [(Prod.mk.inj (Option.some.inj hhand)).2.symm]; rfl⟩
      | _ =>
        rw [hphase] at hhand
        cases hhand
    obtain ⟨scope, hchecked⟩ := hchecked
    rw [← hs.scope_eq rpc scope hchecked, held, hchecked]
    exact List.mem_append_left _ List.mem_cons_self
  · obtain rfl := Option.some.inj (hrequest.symm.trans hrequest')
    rw [← hscope]
    exact List.mem_append_right _ (List.mem_map_of_mem hentry)

theorem Inv.liveClasses (hs : Inv limits owner s) :
    Classes limits ((liveCalls owner s).map ClientRpc.scope) := by
  refine hs.classes.mono fun scope hscope _ => ?_
  obtain ⟨rpc, hrpc, rfl⟩ := List.mem_map.mp hscope
  exact hs.scope_mem_held hrpc

theorem starts_map_scope (calls : List ClientRpc) :
    starts (calls.map ClientRpc.scope) = calls.filterMap fun
      | .start request => some request
      | _ => none := by
  rw [starts, List.filterMap_map]
  exact List.filterMap_congr fun rpc _ => by cases rpc <;> rfl

theorem waits_map_scope (calls : List ClientRpc) :
    waits (calls.map ClientRpc.scope) = calls.filterMap fun
      | .wait request => some request
      | _ => none := by
  rw [waits, List.filterMap_map]
  exact List.filterMap_congr fun rpc _ => by cases rpc <;> rfl

/-- In every state of every run the limits hold, whatever other threads do meanwhile; and no
rejected submission has made a task or a registration. -/
theorem admission_ok (limits : ClientLimits) (owner : Nat) (s : State)
    (hs : (system limits owner).Reachable s) : AdmissionOk limits owner s := by
  have hinv := inv_of_reachable hs
  have hclasses := hinv.liveClasses
  have hstarts := hclasses.starts_le
  have hwaits := hclasses.waits_le
  have hsame := hclasses.same
  rw [requestIds, starts_map_scope] at hstarts
  rw [waits_map_scope] at hwaits
  rw [starts_map_scope] at hsame
  refine ⟨?_, ?_, hstarts, hwaits,
    fun a ha b hb hid => sameStartRequest_iff.mp (hsame a ha b hb hid), hinv.answers⟩
  · exact (Nat.le_add_right _ _).trans hinv.handles
  · calc (s.registry.ownCalls owner).length
        ≤ s.registry.perOwner owner := atMostCounted_of_reachable (registry_reachable hs) owner
      _ ≤ s.registry.perOwner owner + s.phase.mayRegister.toNat := Nat.le_add_right _ _
      _ ≤ limits.inFlightCalls := hinv.counted

def sampleStart (requestId : Bytes) : ClientRpc :=
  .start ⟨requestId, [], [], [], [], [], [], [], .fail, .allowDuplicate, none, none, none,
    none, none⟩

/-- One start at a time. The second is refused while the task of the first runs, and admitted when
that task has ended: its outcome is unread and its call still registered, but it is not live. -/
def twoStarts : List Label :=
  [.submit (.ok (sampleStart [1])), .owner true, .owner true, .owner true, .owner true, .owner true,
    .owner true, .owner true,
    .submit (.ok (sampleStart [2])), .owner true, .owner true, .owner true,
    .complete 1 (.ok []), .finish 1,
    .submit (.ok (sampleStart [2])), .owner true, .owner true, .owner true, .owner true,
    .owner true,
    .owner true, .owner true, .owner true]

theorem admission_ok_twoStarts :
    ∃ s, (system ⟨1, 1, 2⟩ 7).replay twoStarts State.init = some s ∧
      s.registry.ownCalls 7 = [2, 1] ∧ liveCalls 7 s = [sampleStart [2]] ∧
      s.answers.map (fun answer => (answer.tasks, answer.registrations)) =
        [(1, 1), (0, 0), (1, 1)] ∧
      AdmissionOk ⟨1, 1, 2⟩ 7 s := by
  have hrun : ((system ⟨1, 1, 2⟩ 7).replay twoStarts State.init).map (fun s =>
      (s.registry.ownCalls 7, liveCalls 7 s,
        s.answers.map fun answer => (answer.tasks, answer.registrations))) =
      some ([2, 1], [sampleStart [2]], [(1, 1), (0, 0), (1, 1)]) := by decide +kernel
  obtain ⟨s, hreplay, hs⟩ := Option.map_eq_some_iff.mp hrun
  simp only [Prod.mk.injEq] at hs
  exact ⟨s, hreplay, hs.1, hs.2.1, hs.2.2, admission_ok _ _ s (.replay (.start rfl) hreplay)⟩

end OcamlTemporal.Bridge.Submissions
