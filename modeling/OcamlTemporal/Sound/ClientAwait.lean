import OcamlTemporal.Lib.Signed64
import OcamlTemporal.Lib.Triple
import OcamlTemporal.Mailbox.ClientAwait

/-!
# OcamlTemporal.Sound.ClientAwait

The wait for a submitted client call.

* However the source, the clock and the decoder behave, the call is released at most
  once: exactly when the wait is left without an answer of the source. An outcome that
  a poll reports is the only thing the decoder is given.
* The lengths of the polls need more than a clock that does not decrease: the time left
  is rounded up in 64 bits, so the deadline must be `10 ^ 6` nanoseconds short of the
  largest distance. `waitDeadline` gives no other deadline, but the loop accepts them.
-/

namespace OcamlTemporal.ClientAwait

open Lib (Triple Representable)

/-! ## What a trace says -/

/-- A poll answered something other than `Not_ready`. -/
def answered (trace : List Event) : Bool :=
  trace.any fun
    | .polled _ (some answer) => !Source.isNotReady answer
    | _ => false

def releases (trace : List Event) : Nat :=
  trace.countP fun
    | .released => true
    | _ => false

def decodes (trace : List Event) : List Answer :=
  trace.filterMap fun
    | .decoded outcome => some outcome
    | _ => none

/-- Whether an answer is an outcome: neither `Not_ready` nor that the call was closed. -/
def isOutcome : Answer → Bool
  | .error error => error.status ≠ .notReady && error.status ≠ .invalidState
  | .ok _ => true

def reported (trace : List Event) : List Answer :=
  trace.filterMap fun
    | .polled _ (some answer) => if isOutcome answer then some answer else none
    | _ => none

def readings (trace : List Event) : List Int64 :=
  trace.filterMap fun
    | .clock now => some now
    | _ => none

section Polls

variable (deadlineNs : Option Int64) (sliceMs : Int)

/-- The clock, read newest first, does not decrease, and the deadline is less than
`2 ^ 63 - 999999` nanoseconds after its first reading. -/
structure Fair (clock : List Int64) : Prop where
  nonneg : ∀ now ∈ clock, 0 ≤ now.toInt
  sorted : clock.Pairwise fun later earlier => earlier.toInt ≤ later.toInt
  near : ∀ deadline, deadlineNs = some deadline → ∀ now, clock.getLast? = some now →
    deadline.toInt - now.toInt < 2 ^ 63 - 999999

/-- A poll that waits: it is positive, and at most the slice and the time left at the
last reading of the clock, rounded up. -/
structure Bounded (older : List Event) (timeoutMs : Int) : Prop where
  positive : 0 < timeoutMs
  le_slice : timeoutMs ≤ sliceMs
  le_remaining : ∀ deadline, deadlineNs = some deadline →
    ∃ now, (readings older).head? = some now ∧ now.toInt < deadline.toInt ∧
      timeoutMs ≤ (deadline.toInt - now.toInt + 999999) / 1000000

/-- The poll of length zero after the deadline. -/
structure Last (older : List Event) (timeoutMs : Int) : Prop where
  zero : timeoutMs = 0
  passed : ∃ deadline now, deadlineNs = some deadline ∧ (readings older).head? = some now ∧
    deadline.toInt ≤ now.toInt

def PollsBounded : List Event → Prop
  | [] => True
  | .polled timeoutMs _ :: older => Bounded deadlineNs sliceMs older timeoutMs ∧ PollsBounded older
  | _ :: older => PollsBounded older

/-- All polls wait, except that the last one may come after the deadline. -/
def PollsOk : List Event → Prop
  | [] => True
  | .polled timeoutMs _ :: older =>
    (Bounded deadlineNs sliceMs older timeoutMs ∨ Last deadlineNs older timeoutMs) ∧
      PollsBounded deadlineNs sliceMs older
  | _ :: older => PollsOk older

/-- All polls are as they should be, if the clock is. -/
abbrev PollsFair (trace : List Event) : Prop :=
  Fair deadlineNs (readings trace) → PollsOk deadlineNs sliceMs trace

end Polls

variable {deadlineNs : Option Int64} {sliceMs : Int} {trace : List Event} {event : Event}

variable {now deadline : Int64} {answer : Answer}

theorem Fair.tail {clock : List Int64} (h : Fair deadlineNs (now :: clock)) :
    Fair deadlineNs clock := by
  obtain ⟨hnonneg, hsorted, hnear⟩ := h
  refine ⟨fun later hlater => hnonneg later (List.mem_cons_of_mem _ hlater),
    (List.pairwise_cons.mp hsorted).2,
    fun deadline hdeadline first hfirst => hnear deadline hdeadline first ?_⟩
  rw [List.getLast?_cons, hfirst]
  rfl

/-- The deadline is as near to the latest reading as to the first one at least. -/
theorem Fair.latest {clock : List Int64} (h : Fair deadlineNs (now :: clock))
    (hdeadline : deadlineNs = some deadline) :
    0 ≤ now.toInt ∧ deadline.toInt - now.toInt < 2 ^ 63 - 999999 := by
  obtain ⟨hnonneg, hsorted, hnear⟩ := h
  refine ⟨hnonneg now List.mem_cons_self, ?_⟩
  have hfirst := hnear deadline hdeadline _
    (List.getLast?_eq_getLast_of_ne_nil (List.cons_ne_nil now clock))
  have hle : ((now :: clock).getLast (List.cons_ne_nil now clock)).toInt ≤ now.toInt := by
    rcases List.mem_cons.mp (List.getLast_mem (List.cons_ne_nil now clock)) with heq | hmem
    · exact Int.le_of_eq (congrArg Int64.toInt heq)
    · exact (List.pairwise_cons.mp hsorted).1 _ hmem
  omega

theorem PollsBounded.ok (h : PollsBounded deadlineNs sliceMs trace) :
    PollsOk deadlineNs sliceMs trace := by
  induction trace with
  | nil => trivial
  | cons event trace ih =>
    cases event with
    | polled => exact ⟨.inl h.1, h.2⟩
    | clock => exact ih h
    | clockRaised => exact ih h
    | released => exact ih h
    | decoded => exact ih h

/-! ## The time left -/

theorem remainingMs_none (hnow : 0 ≤ now.toInt) (hdeadline : 0 ≤ deadline.toInt)
    (h : remainingMs now deadline = none) : deadline.toInt ≤ now.toInt := by
  have hnowMax := now.toInt_lt
  have hdeadlineMax := deadline.toInt_lt
  have hsub : (deadline - now).toInt = deadline.toInt - now.toInt :=
    Representable.toInt_sub ⟨by omega, by omega⟩
  have hzero : (0 : Int64).toInt = 0 := rfl
  rw [remainingMs] at h
  split at h
  next hle =>
    rw [Int64.le_iff_toInt_le] at hle
    omega
  · cases h

theorem remainingMs_some {remaining : Int64} (hnow : 0 ≤ now.toInt) (hdeadline : 0 ≤ deadline.toInt)
    (hnear : deadline.toInt - now.toInt < 2 ^ 63 - 999999)
    (h : remainingMs now deadline = some remaining) :
    now.toInt < deadline.toInt ∧
      remaining.toInt = (deadline.toInt - now.toInt + 999999) / 1000000 := by
  have hnowMax := now.toInt_lt
  have hdeadlineMax := deadline.toInt_lt
  have hsub : (deadline - now).toInt = deadline.toInt - now.toInt :=
    Representable.toInt_sub ⟨by omega, by omega⟩
  have hzero : (0 : Int64).toInt = 0 := rfl
  have hround : (999999 : Int64).toInt = 999999 := rfl
  rw [remainingMs] at h
  split at h
  · cases h
  next hlt =>
    rw [Int64.le_iff_toInt_le] at hlt
    obtain rfl := Option.some.inj h
    have hadd : (deadline - now + 999999).toInt = deadline.toInt - now.toInt + 999999 := by
      rw [Representable.toInt_add ⟨by omega, by omega⟩, hsub, hround]
    refine ⟨by omega, ?_⟩
    rw [Lib.toInt_div_of_nonneg (by omega) (by decide), hadd]
    rfl

/-! ## Stages of a run -/

theorem releases_released : releases (.released :: trace) = releases trace + 1 := by
  simp [releases]

theorem answered_polled (timeoutMs : Int) (answer : Answer) :
    answered (.polled timeoutMs (some answer) :: trace) =
      (!Source.isNotReady answer || answered trace) := rfl

theorem reported_polled (timeoutMs : Int) (answer : Answer) :
    reported (.polled timeoutMs (some answer) :: trace) =
      if isOutcome answer then answer :: reported trace else reported trace := by
  rw [reported, List.filterMap_cons]
  dsimp only
  cases isOutcome answer <;> rfl

/-- Nothing has happened yet that ends the wait. -/
structure Quiet (trace : List Event) : Prop where
  unanswered : answered trace = false
  unreleased : releases trace = 0
  undecoded : decodes trace = []
  unreported : reported trace = []

/-- How a wait is left: the call is released unless a poll answered it, and an outcome that is
reported was decoded once. -/
structure Settled (trace : List Event) : Prop where
  releases_eq : releases trace = if answered trace then 0 else 1
  decoded : ∀ outcome ∈ reported trace, decodes trace = [outcome]

theorem Quiet.clock (h : Quiet trace) (now : Int64) : Quiet (.clock now :: trace) :=
  ⟨h.unanswered, h.unreleased, h.undecoded, h.unreported⟩

theorem Quiet.clockRaised (h : Quiet trace) : Quiet (.clockRaised :: trace) :=
  ⟨h.unanswered, h.unreleased, h.undecoded, h.unreported⟩

theorem Quiet.pollRaised (h : Quiet trace) (timeoutMs : Int) :
    Quiet (.polled timeoutMs none :: trace) :=
  ⟨h.unanswered, h.unreleased, h.undecoded, h.unreported⟩

theorem Quiet.notReady (h : Quiet trace) (timeoutMs : Int)
    (hanswer : Source.isNotReady answer = true) :
    Quiet (.polled timeoutMs (some answer) :: trace) := by
  have houtcome : isOutcome answer = false := by
    cases answer with
    | ok => cases hanswer
    | error error =>
      simp only [Source.isNotReady, decide_eq_true_eq] at hanswer
      simp [isOutcome, hanswer]
  refine ⟨?_, h.unreleased, h.undecoded, ?_⟩
  · rw [answered_polled, hanswer, h.unanswered]
    rfl
  · rw [reported_polled, houtcome]
    exact h.unreported

/-- A wait that is given up releases the call. -/
theorem Quiet.released (h : Quiet trace) : Settled (.released :: trace) := by
  refine ⟨?_, fun outcome houtcome => ?_⟩
  · change releases (.released :: trace) = if answered trace then 0 else 1
    rw [releases_released, h.unreleased, h.unanswered]
    rfl
  · change outcome ∈ reported trace at houtcome
    rw [h.unreported] at houtcome
    cases houtcome

/-- The source answered, and nothing was done about it yet. -/
structure Replied (trace : List Event) (answer : Answer) : Prop where
  answered : answered trace = true
  unreleased : releases trace = 0
  undecoded : decodes trace = []
  reported : reported trace = if isOutcome answer then [answer] else []

theorem Quiet.replied (h : Quiet trace) (timeoutMs : Int)
    (hanswer : Source.isNotReady answer = false) :
    Replied (.polled timeoutMs (some answer) :: trace) answer := by
  refine ⟨?_, h.unreleased, h.undecoded, ?_⟩
  · rw [answered_polled, hanswer]
    rfl
  · rw [reported_polled, h.unreported]

theorem Replied.closed (h : Replied trace answer) (hclosed : isOutcome answer = false) :
    Settled trace := by
  refine ⟨by rw [h.unreleased, h.answered]; rfl, fun outcome houtcome => ?_⟩
  rw [h.reported, hclosed] at houtcome
  cases houtcome

theorem Replied.decoded (h : Replied trace answer) : Settled (.decoded answer :: trace) := by
  refine ⟨?_, fun outcome houtcome => ?_⟩
  · change releases trace = if ClientAwait.answered trace then 0 else 1
    rw [h.unreleased, h.answered]
    rfl
  · change outcome ∈ ClientAwait.reported trace at houtcome
    change answer :: decodes trace = [outcome]
    rw [h.reported] at houtcome
    rw [h.undecoded]
    split_ifs at houtcome
    · rw [List.mem_singleton.mp houtcome]
    · cases houtcome

/-- The decoder is told of the expiry after the release. -/
theorem Settled.expired (h : Settled trace) (hquiet : reported trace = []) (outcome : Answer) :
    Settled (.decoded outcome :: trace) := by
  refine ⟨h.releases_eq, fun outcome houtcome => ?_⟩
  change outcome ∈ reported trace at houtcome
  rw [hquiet] at houtcome
  cases houtcome

/-! ## The loop -/

section Loop

variable {World Exn Value : Type} (source : Source World Exn Value)
variable (deadlineNs : Option Int64) (sliceMs : Int)

/-- Between two polls: the call is not retired, nothing has ended the wait, and the polls so far
keep to the slice and to the deadline if the clock is fair. -/
structure Waiting (s : State World) : Prop where
  retired : s.retired = false
  quiet : Quiet s.trace
  polls : Fair deadlineNs (readings s.trace) → PollsBounded deadlineNs sliceMs s.trace

/-- Left by an exception of the clock or of a poll. -/
structure Abandoned (s : State World) : Prop where
  retired : s.retired = false
  quiet : Quiet s.trace
  polls : PollsFair deadlineNs sliceMs s.trace

/-- Left with the call retired. -/
structure Finished (s : State World) : Prop where
  retired : s.retired = true
  settled : Settled s.trace
  polls : PollsFair deadlineNs sliceMs s.trace

/-- The states in which the body of `Fun.protect` is left without a result. -/
def Stopped : Stop Exn → State World → Prop
  | .running, s => Waiting deadlineNs sliceMs s
  | .raised _, s => Finished deadlineNs sliceMs s ∨ Abandoned deadlineNs sliceMs s

variable {deadlineNs sliceMs}

/-- A poll, with what its length is known to satisfy before and after. -/
theorem triple_callPoll {P Q : List Event → Prop} (timeoutMs : Int)
    (hafter : ∀ trace reply, P trace → Q (.polled timeoutMs reply :: trace))
    (hok : ∀ trace, Q trace → PollsOk deadlineNs sliceMs trace) :
    Triple
      (fun s => s.retired = false ∧ Quiet s.trace ∧
        (Fair deadlineNs (readings s.trace) → P s.trace))
      (source.callPoll timeoutMs)
      (fun answer s => s.retired = false ∧
        (Source.isNotReady answer = true → Quiet s.trace) ∧
        (Source.isNotReady answer = false → Replied s.trace answer) ∧
        (Fair deadlineNs (readings s.trace) → Q s.trace))
      (Stopped deadlineNs sliceMs) := by
  rintro s ⟨hretired, hquiet, hpolls⟩
  rw [Source.callPoll]
  obtain ⟨reply, world⟩ := source.poll s.world timeoutMs
  cases reply with
  | ok answer =>
    exact ⟨hretired, fun h => hquiet.notReady timeoutMs h, fun h => hquiet.replied timeoutMs h,
      fun hfair => hafter _ _ (hpolls hfair)⟩
  | error exn =>
    exact .inr ⟨hretired, hquiet.pollRaised timeoutMs,
      fun hfair => hok _ (hafter _ _ (hpolls hfair))⟩

theorem triple_retire {P : List Event → Prop} :
    Triple (fun s : State World => P s.trace) (Source.retire : Run World Exn Unit)
      (fun _ s => s.retired = true ∧ P s.trace) (Stopped deadlineNs sliceMs) :=
  Triple.modify fun _ h => ⟨rfl, h⟩

/-- The decoder may raise, but the call is settled by then. -/
theorem triple_decoded {outcome : Answer} :
    Triple
      (fun s : State World => s.retired = true ∧ Settled (.decoded outcome :: s.trace) ∧
        PollsFair deadlineNs sliceMs s.trace)
      (source.decoded outcome) (fun _ => Finished deadlineNs sliceMs)
      (Stopped deadlineNs sliceMs) := by
  rintro s ⟨hretired, hsettled, hpolls⟩
  have hfinished : Finished deadlineNs sliceMs { s with trace := .decoded outcome :: s.trace } :=
    ⟨hretired, hsettled, hpolls⟩
  rw [Source.decoded]
  cases source.decode outcome with
  | error exn => exact .inl hfinished
  | ok result =>
    cases result with
    | ok value => exact hfinished
    | error error => exact hfinished

theorem triple_answered {answer : Answer} (hanswer : Source.isNotReady answer = false) :
    Triple
      (fun s : State World => Replied s.trace answer ∧
        PollsFair deadlineNs sliceMs s.trace)
      (source.answered answer) (fun _ => Finished deadlineNs sliceMs)
      (Stopped deadlineNs sliceMs) := by
  refine Triple.bind (triple_retire (P := fun trace => Replied trace answer ∧
    PollsFair deadlineNs sliceMs trace)) fun _ => ?_
  have hdecoded : Triple
      (fun s : State World => s.retired = true ∧ Replied s.trace answer ∧
        PollsFair deadlineNs sliceMs s.trace)
      (source.decoded answer) (fun _ => Finished deadlineNs sliceMs)
      (Stopped deadlineNs sliceMs) :=
    (triple_decoded source).pre fun s h => ⟨h.1, h.2.1.decoded, h.2.2⟩
  cases answer with
  | ok bytes => exact hdecoded
  | error error =>
    dsimp only
    split
    next hclosed =>
      refine Triple.pure fun s h => ⟨h.1, h.2.1.closed ?_, h.2.2⟩
      simp [isOutcome, hclosed]
    · exact hdecoded

/-- Whether the release returns or raises, it has been called once. -/
theorem triple_releaseQuietly {retired : Bool} {E : Stop Exn → State World → Prop} :
    Triple
      (fun s : State World => s.retired = retired ∧ Quiet s.trace ∧
        PollsFair deadlineNs sliceMs s.trace)
      source.releaseQuietly
      (fun _ s => s.retired = retired ∧ Settled s.trace ∧ reported s.trace = [] ∧
        PollsFair deadlineNs sliceMs s.trace)
      E := by
  refine Triple.tryCatch (E := fun _ s => s.retired = retired ∧ Settled s.trace ∧
    reported s.trace = [] ∧
      PollsFair deadlineNs sliceMs s.trace) ?_
    fun exn => Triple.pure fun _ => id
  rintro s ⟨hretired, hquiet, hpolls⟩
  rw [Source.callRelease]
  obtain ⟨reply, world⟩ := source.release s.world
  cases reply with
  | ok => exact ⟨hretired, hquiet.released, hquiet.unreported, hpolls⟩
  | error exn => exact ⟨hretired, hquiet.released, hquiet.unreported, hpolls⟩

theorem triple_expire :
    Triple
      (fun s : State World => Waiting deadlineNs sliceMs s ∧
        (Fair deadlineNs (readings s.trace) → Last deadlineNs s.trace 0))
      source.expire (fun _ => Finished deadlineNs sliceMs) (Stopped deadlineNs sliceMs) := by
  have hpoll := triple_callPoll source
    (P := fun trace => PollsBounded deadlineNs sliceMs trace ∧ Last deadlineNs trace 0) 0
    (fun _ _ h => ⟨.inr h.2, h.1⟩) fun _ (h : PollsOk deadlineNs sliceMs _) => h
  refine Triple.bind (hpoll.pre fun s h => ⟨h.1.retired, h.1.quiet, fun hfair =>
    ⟨h.1.polls hfair, h.2 hfair⟩⟩) fun answer => ?_
  cases hanswer : Source.isNotReady answer with
  | false =>
    refine (triple_answered source hanswer).pre fun s h => ⟨h.2.2.1 rfl, h.2.2.2⟩
  | true =>
    refine Triple.bind ((triple_retire (P := fun trace => Quiet trace ∧
      PollsFair deadlineNs sliceMs trace)).pre
        fun s h => ⟨h.2.1 rfl, h.2.2.2⟩) fun _ => ?_
    refine Triple.bind (triple_releaseQuietly source) fun _ => ?_
    refine (triple_decoded source).pre fun s h => ⟨h.1, ?_, h.2.2.2⟩
    exact h.2.1.expired h.2.2.1 _

/-- The length of the next poll is within its bounds, or the deadline has passed. -/
theorem triple_slice (hslice : 0 < sliceMs ∧ sliceMs < 2 ^ 62)
    (hdeadline : ∀ deadline, deadlineNs = some deadline → 0 ≤ deadline.toInt) :
    Triple (Waiting deadlineNs sliceMs) (source.slice sliceMs deadlineNs)
      (fun next s => Waiting deadlineNs sliceMs s ∧
        (Fair deadlineNs (readings s.trace) →
          match next with
          | none => Last deadlineNs s.trace 0
          | some timeoutMs => Bounded deadlineNs sliceMs s.trace timeoutMs))
      (Stopped deadlineNs sliceMs) := by
  cases deadlineNs with
  | none =>
    exact Triple.pure fun s h => ⟨h, fun _ => ⟨hslice.1, Int.le_refl _, nofun⟩⟩
  | some deadline =>
    have hnow : Triple (Waiting (some deadline) sliceMs) source.callNow
        (fun now s => Waiting (some deadline) sliceMs s ∧ (readings s.trace).head? = some now ∧
          (Fair (some deadline) (readings s.trace) →
            0 ≤ now.toInt ∧ deadline.toInt - now.toInt < 2 ^ 63 - 999999))
        (Stopped (some deadline) sliceMs) := by
      intro s h
      rw [Source.callNow]
      obtain ⟨reply, world⟩ := source.nowNs s.world
      cases reply with
      | ok now =>
        refine ⟨⟨h.retired, h.quiet.clock now, fun hfair => h.polls hfair.tail⟩, rfl,
          fun hfair => hfair.latest rfl⟩
      | error exn =>
        exact .inr ⟨h.retired, h.quiet.clockRaised, fun hfair => (h.polls hfair).ok⟩
    refine Triple.bind hnow fun now => ?_
    have hdeadline := hdeadline deadline rfl
    cases hremaining : remainingMs now deadline with
    | none =>
      refine Triple.pure fun s h => ⟨h.1, fun hfair => ⟨rfl, deadline, now, rfl, h.2.1, ?_⟩⟩
      exact remainingMs_none (h.2.2 hfair).1 hdeadline hremaining
    | some remaining =>
      refine Triple.pure fun s h => ⟨h.1, fun hfair => ?_⟩
      obtain ⟨hnonneg, hnear⟩ := h.2.2 hfair
      obtain ⟨hlt, hvalue⟩ := remainingMs_some hnonneg hdeadline hnear hremaining
      have hsliceValue : (Int64.ofInt sliceMs).toInt = sliceMs :=
        Representable.toInt_ofInt ⟨by omega, by omega⟩
      dsimp only
      split_ifs with hless
      · rw [Int64.lt_iff_toInt_lt, hsliceValue] at hless
        refine ⟨by omega, by omega, ?_⟩
        rintro _ ⟨rfl⟩
        exact ⟨now, h.2.1, hlt, by omega⟩
      · rw [Int64.lt_iff_toInt_lt, hsliceValue] at hless
        refine ⟨hslice.1, by omega, ?_⟩
        rintro _ ⟨rfl⟩
        exact ⟨now, h.2.1, hlt, by omega⟩

theorem triple_loop (hslice : 0 < sliceMs ∧ sliceMs < 2 ^ 62)
    (hdeadline : ∀ deadline, deadlineNs = some deadline → 0 ≤ deadline.toInt) (fuel : Nat) :
    Triple (Waiting deadlineNs sliceMs) (source.loop sliceMs deadlineNs fuel)
      (fun _ => Finished deadlineNs sliceMs) (Stopped deadlineNs sliceMs) := by
  induction fuel with
  | zero => exact Triple.throw fun s h => h
  | succ fuel ih =>
    refine Triple.bind (triple_slice source hslice hdeadline) fun next => ?_
    cases next with
    | none => exact triple_expire source
    | some timeoutMs =>
      have hpoll := triple_callPoll source
        (P := fun trace => PollsBounded deadlineNs sliceMs trace ∧
          Bounded deadlineNs sliceMs trace timeoutMs) timeoutMs
        (fun _ _ h => ⟨h.2, h.1⟩) fun _ (h : PollsBounded deadlineNs sliceMs _) => h.ok
      refine Triple.bind (hpoll.pre fun s h => ⟨h.1.retired, h.1.quiet, fun hfair =>
        ⟨h.1.polls hfair, h.2 hfair⟩⟩) fun answer => ?_
      cases hanswer : Source.isNotReady answer with
      | true => exact ih.pre fun s h => ⟨h.1, h.2.1 rfl, h.2.2.2⟩
      | false =>
        exact (triple_answered source hanswer).pre fun s h =>
          ⟨h.2.2.1 rfl, fun hfair => (h.2.2.2 hfair).ok⟩

/-- The finalizer releases a call that is not retired, and settles it by that. -/
theorem triple_finalize {E : Stop Exn → State World → Prop} :
    Triple
      (fun s : State World => Finished deadlineNs sliceMs s ∨ Abandoned deadlineNs sliceMs s)
      source.finalize
      (fun _ s => Settled s.trace ∧
        PollsFair deadlineNs sliceMs s.trace)
      E := by
  rintro s (hfinished | habandoned)
  · rw [Source.finalize, if_pos hfinished.retired]
    exact ⟨hfinished.settled, hfinished.polls⟩
  · rw [Source.finalize, if_neg (by rw [habandoned.retired]; exact Bool.false_ne_true)]
    refine (triple_releaseQuietly source).post ?_ (fun _ _ => id) s
      ⟨habandoned.retired, habandoned.quiet, habandoned.polls⟩
    exact fun _ _ h => ⟨h.2.1, h.2.2.2⟩

end Loop

/-! ## A whole wait -/

/-- What holds of the calls of a wait that was left. -/
structure AwaitOk (deadlineNs : Option Int64) (sliceMs : Int) (trace : List Event) : Prop where
  releases_le : releases trace ≤ 1
  released_iff : releases trace = 1 ↔ answered trace = false
  kept : answered trace = true → releases trace = 0
  polls : Fair deadlineNs (readings trace) → PollsOk deadlineNs sliceMs trace
  decoded : ∀ outcome ∈ reported trace, decodes trace = [outcome]

theorem Settled.awaitOk (h : Settled trace)
    (hpolls : Fair deadlineNs (readings trace) → PollsOk deadlineNs sliceMs trace) :
    AwaitOk deadlineNs sliceMs trace := by
  have hreleases := h.releases_eq
  cases hanswered : answered trace with
  | true =>
    rw [hanswered, if_pos rfl] at hreleases
    exact ⟨by omega,
      ⟨fun hone => by omega, fun hfalse => by rw [hanswered] at hfalse; cases hfalse⟩,
      fun _ => hreleases, hpolls, h.decoded⟩
  | false =>
    rw [hanswered, if_neg Bool.false_ne_true] at hreleases
    exact ⟨by omega, ⟨fun _ => hanswered, fun _ => hreleases⟩,
      fun htrue => by (rw [hanswered] at htrue; cases htrue), hpolls, h.decoded⟩

section Leave

variable {World Exn Value : Type} (source : Source World Exn Value)

theorem triple_returned (result : Except Failure Value) :
    Triple
      (fun s : State World => Finished deadlineNs sliceMs s ∨ Abandoned deadlineNs sliceMs s)
      (do source.finalize; return result : Run World Exn _)
      (fun _ s => AwaitOk deadlineNs sliceMs s.trace) (fun _ _ => False) :=
  Triple.bind (triple_finalize source) fun _ => Triple.pure fun _ h => h.1.awaitOk h.2

/-- The body raised, and the same exception goes on after the finalizer. -/
theorem triple_reraised (exn : Exn) :
    Triple
      (fun s : State World => Finished deadlineNs sliceMs s ∨ Abandoned deadlineNs sliceMs s)
      (do source.finalize; throw (.raised exn) : Run World Exn (Except Failure Value))
      (fun _ _ => False)
      (fun stop s => stop = .raised exn ∧ AwaitOk deadlineNs sliceMs s.trace) :=
  Triple.bind (triple_finalize source) fun _ => Triple.throw fun _ h => ⟨rfl, h.1.awaitOk h.2⟩

end Leave

/-- Every wait, however long it has run and however it is left. While it runs, no poll
has answered and nothing is released or decoded. -/
theorem await_ok {World Exn Value : Type} (source : Source World Exn Value) (world : World)
    (deadlineNs : Option Int64) (sliceMs : Int) (hslice : 0 < sliceMs ∧ sliceMs < 2 ^ 62)
    (hdeadline : ∀ deadline, deadlineNs = some deadline → 0 ≤ deadline.toInt) (fuel : Nat) :
    match source.await sliceMs deadlineNs fuel ⟨world, false, []⟩ with
    | .ok _ s => AwaitOk deadlineNs sliceMs s.trace
    | .error (.raised _) s => AwaitOk deadlineNs sliceMs s.trace
    | .error .running s => Quiet s.trace ∧
        (Fair deadlineNs (readings s.trace) → PollsOk deadlineNs sliceMs s.trace) := by
  have hstart : Waiting deadlineNs sliceMs (⟨world, false, []⟩ : State World) :=
    ⟨rfl, ⟨rfl, rfl, rfl, rfl⟩, fun _ => trivial⟩
  have hloop := triple_loop source hslice hdeadline fuel _ hstart
  rw [Source.await, Source.protect]
  cases hrun : source.loop sliceMs deadlineNs fuel ⟨world, false, []⟩ with
  | ok result s =>
    rw [hrun] at hloop
    have hleft := triple_returned source result s (.inl hloop)
    dsimp only
    revert hleft
    cases (do source.finalize; return result : Run World Exn _) s with
    | ok => exact id
    | error => exact False.elim
  | error stop s =>
    rw [hrun] at hloop
    cases stop with
    | running => exact ⟨hloop.quiet, fun hfair => (hloop.polls hfair).ok⟩
    | raised exn =>
      have hleft := triple_reraised source exn s hloop
      dsimp only
      revert hleft
      cases (do source.finalize; throw (.raised exn) : Run World Exn (Except Failure Value)) s with
      | ok => exact False.elim
      | error stop s =>
        rintro ⟨rfl, hok⟩
        exact hok

/-- A deadline of the public client is near enough for every reading after the one it
was computed from. -/
theorem waitDeadline_near {nowNs : Int64} {timeoutMs : Option Int64} (hnow : 0 ≤ nowNs.toInt)
    (h : waitDeadline nowNs timeoutMs = .ok (some deadline)) :
    0 ≤ deadline.toInt ∧
      ∀ first : Int64, nowNs.toInt ≤ first.toInt →
        deadline.toInt - first.toInt < 2 ^ 63 - 999999 := by
  cases timeoutMs with
  | none => cases h
  | some milliseconds =>
    simp only [waitDeadline] at h
    split at h
    · cases h
    next hpositive =>
      split at h
      · cases h
      next hless =>
        obtain ⟨rfl⟩ := h
        have hzero : (0 : Int64).toInt = 0 := rfl
        have hmillion : (1000000 : Int64).toInt = 1000000 := rfl
        have hmax : Int64.maxValue.toInt = 2 ^ 63 - 1 := rfl
        have hrange := nowNs.toInt_lt
        have hroom : (Int64.maxValue - nowNs).toInt = 2 ^ 63 - 1 - nowNs.toInt := by
          rw [Representable.toInt_sub (by rw [hmax]; constructor <;> omega), hmax]
        rw [Int64.le_iff_toInt_le, hzero] at hpositive
        rw [ge_iff_le, Int64.le_iff_toInt_le, Lib.toInt_div_of_nonneg (by omega) (by omega),
          hroom, hmillion] at hless
        have hproduct : (milliseconds * 1000000).toInt = milliseconds.toInt * 1000000 := by
          rw [Representable.toInt_mul (by rw [hmillion]; constructor <;> omega), hmillion]
        rw [Representable.toInt_add (by rw [hproduct]; constructor <;> omega), hproduct]
        exact ⟨by omega, fun first hfirst => by omega⟩

/-- A source that answers the first poll, with a clock that stands still. -/
def prompt (nowNs : Int64) : Source Unit Unit Unit where
  poll world _ := (.ok (.ok []), world)
  release world := (.ok (), world)
  nowNs world := (.ok nowNs, world)
  decode _ := .ok (.ok ())

/-- A source that never answers, with a clock that goes on by three milliseconds from one
reading to the next. -/
def silent : Source Nat Unit Unit where
  poll world _ := (.ok (.error ⟨.notReady, ""⟩), world)
  release world := (.ok (), world)
  nowNs world := (.ok (Int64.ofNat (world * 3000000)), world + 1)
  decode _ := .ok (.ok ())

/-- A wait of five milliseconds that is answered, and one that is given up: after two polls,
of five and of two milliseconds, the deadline has passed, and the call is released. -/
theorem await_ok_prompt_silent :
    (∃ s, (prompt 0).await 1000 (some 5000000) 1 ⟨(), false, []⟩ = .ok (.ok ()) s ∧
      AwaitOk (some 5000000) 1000 s.trace ∧ releases s.trace = 0) ∧
    ∃ s, silent.await 1000 (some 5000000) 3 ⟨0, false, []⟩ = .ok (.ok ()) s ∧
      AwaitOk (some 5000000) 1000 s.trace ∧ releases s.trace = 1 :=
  ⟨⟨_, rfl, await_ok (prompt 0) () (some 5000000) 1000 (by decide)
      (fun _ hdeadline => by cases hdeadline; decide) 1, rfl⟩,
    ⟨_, rfl, await_ok silent 0 (some 5000000) 1000 (by decide)
      (fun _ hdeadline => by cases hdeadline; decide) 3, rfl⟩⟩

/-- With the largest deadline the rounding wraps, and the poll is given a negative
length. -/
theorem farthest_deadline_polls_negative :
    ∃ s, (prompt 0).await 1000 (some Int64.maxValue) 1 ⟨(), false, []⟩ = .ok (.ok ()) s ∧
      readings s.trace = [0] ∧
      Event.polled (-9223372036853) (some (.ok [])) ∈ s.trace ∧
      ¬PollsOk (some Int64.maxValue) 1000 s.trace := by
  refine ⟨_, rfl, rfl, .tail _ (.head _), fun h => ?_⟩
  rcases h.1 with hbounded | hlast
  · exact absurd hbounded.positive (by decide)
  · exact absurd hlast.zero (by decide)

end OcamlTemporal.ClientAwait
