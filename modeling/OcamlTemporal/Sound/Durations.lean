import OcamlTemporal.Lib.Signed64
import OcamlTemporal.Protocol.Durations
import OcamlTemporal.Runtime.Resolutions

/-!
# OcamlTemporal.Sound.Durations

Two results about durations.

* The delay of a local activity's retry (`retry_timer_iff`): the timer is never shorter
  than the delay and less than a millisecond longer. It passes the encoder unless the
  delay is within the last millisecond of the range that the decoder accepts, where
  rounding up leaves that range (`longest_delay_refused`).
* The two conversions to public durations (`public_durations_ok`): both return
  `exactMs`, clamped, because neither of their guards lets a product wrap around
  (`noWrap`).
-/

namespace OcamlTemporal.Protocol.Durations

open Lib (Json Representable bind_ok)
open Codec

/-! ## Accepted durations -/

/-- What the strict decoder accepts. -/
structure Accepted (d : Duration) : Prop where
  seconds_nonneg : 0 ≤ d.seconds.toInt
  seconds_le : d.seconds.toInt ≤ maxDurationSeconds
  nanoseconds_nonneg : 0 ≤ d.nanoseconds
  nanoseconds_le : d.nanoseconds ≤ 999999999

theorem accepted_of_duration {path : Bytes} {json : Json} {d : Duration}
    (h : duration path json = .ok d) : Accepted d := by
  obtain ⟨value, hvalue, h⟩ := bind_ok.mp h
  split at h
  · cases h
  next hnonneg =>
    split at h
    · cases h
    next hle =>
      obtain rfl := Except.ok.inj h
      obtain ⟨entries, -, hvalue⟩ := bind_ok.mp hvalue
      obtain ⟨seconds, -, hvalue⟩ := bind_ok.mp hvalue
      obtain ⟨nanos, -, hvalue⟩ := bind_ok.mp hvalue
      split at hvalue
      · cases hvalue
      next hnanos =>
        obtain rfl := Except.ok.inj hvalue
        simp only [nanosecondsInRange, Bool.not_eq_true', Bool.not_eq_false, Bool.and_eq_true,
          decide_eq_true_eq] at hnanos
        exact ⟨Int.not_lt.mp hnonneg, Int.not_lt.mp hle, hnanos.1, hnanos.2⟩

theorem duration_iff {path : Bytes} {d : Duration} :
    duration path (durationJson d) = .ok d ↔ Accepted d := by
  refine ⟨accepted_of_duration, fun h => ?_⟩
  obtain ⟨h₁, h₂, h₃, h₄⟩ := h
  have hnanos : (Int64.ofInt d.nanoseconds).toInt = d.nanoseconds :=
    Representable.toInt_ofInt ⟨by omega, by omega⟩
  have hseconds : int64 (sub path "seconds") (.int d.seconds.toInt) = .ok d.seconds :=
    int64_ok.mpr rfl
  have hnanoseconds : int64 (sub path "nanoseconds") (.int d.nanoseconds) =
      .ok (Int64.ofInt d.nanoseconds) := int64_ok.mpr (by rw [hnanos])
  have htimestamp : timestamp path (durationJson d) = .ok ⟨d.seconds, d.nanoseconds⟩ := by
    refine bind_ok.mpr ⟨_, exactObject_ok.mpr ⟨rfl, rfl⟩, ?_⟩
    refine bind_ok.mpr ⟨_, member_ok.mpr ⟨_, rfl, hseconds⟩, ?_⟩
    refine bind_ok.mpr ⟨_, member_ok.mpr ⟨_, rfl, hnanoseconds⟩, ?_⟩
    rw [hnanos, if_neg (by simp [nanosecondsInRange, h₃, h₄])]
    rfl
  refine bind_ok.mpr ⟨_, htimestamp, ?_⟩
  rw [if_neg (Int.not_lt.mpr h₁), if_neg (Int.not_lt.mpr h₂)]
  rfl

/-! ## Milliseconds -/

theorem fractionMs_toInt {nanoseconds : Int} (hnonneg : 0 ≤ nanoseconds)
    (hle : nanoseconds ≤ 999999999) :
    (fractionMs nanoseconds).toInt = (nanoseconds + 999999) / 1000000 := by
  rw [fractionMs, Int.tdiv_eq_ediv_of_nonneg (by omega)]
  exact Representable.toInt_ofInt ⟨by omega, by omega⟩

theorem toInt_mul_thousand {seconds : Int64} (h : Representable (seconds.toInt * 1000)) :
    (seconds * 1000).toInt = seconds.toInt * 1000 :=
  Representable.toInt_mul h

theorem millisecondsOfDuration_eq (path : Bytes) {d : Duration} (h : Accepted d) :
    ∃ ms, millisecondsOfDuration path d = .ok ms ∧
      ms.toInt = d.seconds.toInt * 1000 + (d.nanoseconds + 999999) / 1000000 := by
  obtain ⟨hs, hsmax, hn, hnmax⟩ := h
  rw [maxDurationSeconds] at hsmax
  have hfraction := fractionMs_toInt hn hnmax
  have hmul : (d.seconds * 1000).toInt = d.seconds.toInt * 1000 :=
    toInt_mul_thousand ⟨by omega, by omega⟩
  have hmax : Int64.maxValue.toInt = 9223372036854775807 := rfl
  have hlimit : (Int64.maxValue / 1000).toInt = 9223372036854775 := rfl
  have hsub : (Int64.maxValue - fractionMs d.nanoseconds).toInt =
      9223372036854775807 - (d.nanoseconds + 999999) / 1000000 := by
    rw [Representable.toInt_sub ⟨by omega, by omega⟩, hmax, hfraction]
  have hadd : (d.seconds * 1000 + fractionMs d.nanoseconds).toInt =
      d.seconds.toInt * 1000 + (d.nanoseconds + 999999) / 1000000 := by
    rw [Representable.toInt_add ⟨by omega, by omega⟩, hmul, hfraction]
  refine ⟨_, ?_, hadd⟩
  have hzero : (0 : Int64).toInt = 0 := rfl
  rw [millisecondsOfDuration, if_neg (by rw [Int64.lt_iff_toInt_lt]; omega),
    if_neg (by omega), if_neg (by rw [gt_iff_lt, Int64.lt_iff_toInt_lt]; omega)]
  dsimp only
  rw [if_neg (by rw [gt_iff_lt, Int64.lt_iff_toInt_lt]; omega)]

theorem durationOfMilliseconds_eq (path : Bytes) {ms : Int64} (h : 0 ≤ ms.toInt) :
    ∃ timer, durationOfMilliseconds path ms = .ok timer ∧
      timer.seconds.toInt = ms.toInt / 1000 ∧ timer.nanoseconds = ms.toInt % 1000 * 1000000 := by
  have hzero : (0 : Int64).toInt = 0 := rfl
  have hthousand : (1000 : Int64).toInt = 1000 := rfl
  have hmod : (ms % 1000).toInt = ms.toInt % 1000 := Lib.toInt_mod_of_nonneg h
  refine ⟨⟨ms / 1000, (ms % 1000 * 1000000).toInt⟩, ?_, ?_, ?_⟩
  · rw [durationOfMilliseconds, if_neg (by rw [Int64.lt_iff_toInt_lt]; omega)]
  · exact Lib.toInt_div_of_nonneg h (by decide)
  · have hmul : Representable ((ms % 1000).toInt * (1000000 : Int64).toInt) := by
      rw [hmod, show (1000000 : Int64).toInt = 1000000 from rfl]
      exact ⟨by omega, by omega⟩
    exact hmul.toInt_mul.trans (by rw [hmod]; rfl)

/-! ## The retry timer -/

def length (d : Duration) : Int := d.seconds.toInt * 1000000000 + d.nanoseconds

/-- The delays that stay within the range of a duration when they are rounded up to
whole milliseconds. -/
def Roundable (d : Duration) : Prop :=
  d.seconds.toInt < maxDurationSeconds ∨ d.nanoseconds ≤ 999000000

instance (d : Duration) : Decidable (Roundable d) := inferInstanceAs (Decidable (_ ∨ _))

/-- A timer for a delay: it passes the encoder, it is not shorter and less than a
millisecond longer. -/
structure TimerOk (d timer : Duration) : Prop where
  encoded : ∀ path seq, 0 ≤ seq.toInt → seq.toInt ≤ 4294967295 →
    startTimer path (startTimerJson seq timer) = .ok (.startTimer seq timer)
  notShorter : length d ≤ length timer
  close : length timer < length d + 1000000

theorem startTimer_iff {path : Bytes} {seq : Int64} {timer : Duration} (hseq : 0 ≤ seq.toInt)
    (hseqMax : seq.toInt ≤ 4294967295) :
    startTimer path (startTimerJson seq timer) = .ok (.startTimer seq timer) ↔ Accepted timer := by
  have huint : uint32 (sub path "seq") (.int seq.toInt) = .ok seq := by
    refine bind_ok.mpr ⟨seq, int64_ok.mpr rfl, ?_⟩
    rw [if_neg (by omega)]
    rfl
  rw [← @duration_iff (sub path "start_to_fire_timeout")]
  constructor
  · intro h
    obtain ⟨entries, hentries, h⟩ := bind_ok.mp h
    obtain ⟨hentries, -⟩ := exactObject_ok.mp hentries
    obtain rfl := Json.obj.inj hentries
    obtain ⟨seq', -, h⟩ := bind_ok.mp h
    obtain ⟨timer', htimer, h⟩ := bind_ok.mp h
    obtain ⟨j, hj, htimer⟩ := member_ok.mp htimer
    obtain rfl := Option.some.inj hj
    obtain ⟨-, rfl⟩ := CompletionCommand.startTimer.inj (Except.ok.inj h)
    exact htimer
  · intro h
    refine bind_ok.mpr ⟨_, exactObject_ok.mpr ⟨rfl, rfl⟩, ?_⟩
    refine bind_ok.mpr ⟨seq, member_ok.mpr ⟨_, rfl, huint⟩, ?_⟩
    exact bind_ok.mpr ⟨timer, member_ok.mpr ⟨_, rfl, h⟩, rfl⟩

/-- The timer that the delay is turned into, and when it passes the encoder. -/
theorem timer_of_accepted (path path' : Bytes) {d : Duration} (h : Accepted d) :
    ∃ ms timer, millisecondsOfDuration path d = .ok ms ∧ 0 ≤ ms.toInt ∧
      durationOfMilliseconds path' ms = .ok timer ∧
      length d ≤ length timer ∧ length timer < length d + 1000000 ∧
      (Accepted timer ↔ Roundable d) := by
  obtain ⟨ms, hms, hvalue⟩ := millisecondsOfDuration_eq path h
  obtain ⟨hs, hsmax, hn, hnmax⟩ := h
  rw [maxDurationSeconds] at hsmax
  have hnonneg : 0 ≤ ms.toInt := by omega
  obtain ⟨timer, htimer, hseconds, hnanoseconds⟩ := durationOfMilliseconds_eq path' hnonneg
  refine ⟨ms, timer, hms, hnonneg, htimer, ?_, ?_, ?_⟩
  · rw [length, length]
    omega
  · rw [length, length]
    omega
  · rw [Roundable, maxDurationSeconds]
    constructor
    · rintro ⟨-, hle, -, -⟩
      rw [maxDurationSeconds] at hle
      omega
    · intro hround
      refine ⟨by omega, ?_, by omega, by omega⟩
      rw [maxDurationSeconds]
      omega

/-- What the runtime does with a retry delay: it queues the start of a timer, and the
timer has exactly this delay. -/
structure Starts (seq : Nat) (attempt ms : Int) (time : Option OcamlTemporal.Timestamp) : Prop where
  queued : ∀ (P : Program) (s : State P) (la : LocalActivity),
    s.ctx.localActivities seq = some la → la.backoff = .idle → la.attempt < attempt →
    (s.ctx.activityHandles seq).any (·.cancellationRequested) = false → s.sched.active = true →
    s.resolveLocalActivityBackoff seq attempt ms time =
      .ok { s with
        sched := s.sched.enqueue (.backoffTimer seq attempt ms time)
        ctx := s.ctx.acceptBackoff seq la }
  started : ∀ (P : Program) (c : Context P) (la : LocalActivity),
    c.localActivities seq = some la → la.backoff = .timerQueued → c.isSealed = false →
    (c.startBackoffTimer seq attempt ms time).commandsRev =
      .startTimer (c.nextSequence + 1) ms :: c.commandsRev

theorem starts {seq : Nat} {attempt ms : Int} {time : Option OcamlTemporal.Timestamp}
    (hattempt : 0 < attempt) (hms : 0 ≤ ms) : Starts seq attempt ms time := by
  constructor
  · intro P s la hla hidle hlater hcancel hactive
    rw [State.resolveLocalActivityBackoff, hla]
    dsimp only
    rw [if_neg (by rw [hidle]; exact fun h => h rfl), if_neg (by omega), if_neg (by omega),
      if_neg (by omega), if_neg (by rw [hcancel]; decide), State.spawnRetry, Scheduler.spawn,
      if_pos hactive]
  · intro P c la hla hqueued hopen
    rw [Context.startBackoffTimer, hla]
    simp [hqueued, Context.beginBackoffTimer, Context.emit, Context.takes,
      Context.allocateSequence, hopen]

theorem ofKind_ok {α : Type} {message : String} {cases : List (String × Decoder α)} {path : Bytes}
    {json : Json} {a : α} (h : ofKind message cases path json = .ok a) :
    ∃ entry ∈ cases, entry.2 path json = .ok a := by
  obtain ⟨kind, -, h⟩ := bind_ok.mp h
  split at h
  next entry hfind => exact ⟨entry, List.mem_of_find?_eq_some hfind, h⟩
  · cases h

/-- A decoded retry delay has a positive attempt and an accepted duration. -/
theorem backoff_decoded {path : Bytes} {json : Json} {attempt : Int64} {d : Duration}
    {time : Option Timestamp} (h : activityResolution path json = .ok (.backoff attempt d time)) :
    0 < attempt.toInt ∧ Accepted d := by
  obtain ⟨entry, hentry, h⟩ := ofKind_ok h
  simp only [List.mem_cons, List.not_mem_nil, or_false] at hentry
  obtain rfl | rfl | rfl | rfl := hentry
  · obtain ⟨_, -, h⟩ := bind_ok.mp h
    obtain ⟨_, -, h⟩ := bind_ok.mp h
    cases h
  · obtain ⟨_, -, h⟩ := bind_ok.mp h
    obtain ⟨_, -, h⟩ := bind_ok.mp h
    cases h
  · obtain ⟨_, -, h⟩ := bind_ok.mp h
    obtain ⟨_, -, h⟩ := bind_ok.mp h
    cases h
  · obtain ⟨entries, -, h⟩ := bind_ok.mp h
    obtain ⟨attempt', hattempt, h⟩ := bind_ok.mp h
    split at h
    · cases h
    next hne =>
      obtain ⟨d', hd, h⟩ := bind_ok.mp h
      obtain ⟨time', -, h⟩ := bind_ok.mp h
      obtain ⟨rfl, rfl, rfl⟩ := ActivityResolution.backoff.inj (Except.ok.inj h)
      obtain ⟨_, -, hd⟩ := member_ok.mp hd
      refine ⟨?_, accepted_of_duration hd⟩
      obtain ⟨_, -, hattempt⟩ := member_ok.mp hattempt
      obtain ⟨value, -, hattempt⟩ := bind_ok.mp hattempt
      split at hattempt
      · cases hattempt
      next hrange =>
        obtain rfl := Except.ok.inj hattempt
        have hne : value.toInt ≠ 0 := fun hzero => hne (Int64.toInt_inj.mp hzero)
        omega

theorem validateSequence_ok {path : Bytes} {seq : Int64} (hseq : 0 ≤ seq.toInt)
    (hseqMax : seq.toInt ≤ 4294967295) : validateSequence path seq = .ok () := by
  have hzero : (0 : Int64).toInt = 0 := rfl
  have hmax : (4294967295 : Int64).toInt = 4294967295 := rfl
  rw [validateSequence, if_neg (by rw [Int64.lt_iff_toInt_lt]; omega),
    if_neg (by rw [gt_iff_lt, Int64.lt_iff_toInt_lt]; omega)]

/-- The whole way of a retry delay. The timer passes the encoder exactly if the delay
does not round up past the largest duration. -/
theorem retry_timer_iff {path : Bytes} (path' : Bytes) {json : Json} {seq attempt : Int64}
    {d : Duration} {time : Option Timestamp} (hseq : 0 ≤ seq.toInt)
    (hseqMax : seq.toInt ≤ 4294967295)
    (h : activityResolution path json = .ok (.backoff attempt d time)) :
    ∃ (ms : Int64) (timer : Duration) (time' : Option OcamlTemporal.Timestamp),
      backoffJob path' seq attempt d time =
        .ok (.resolveLocalActivityBackoff seq.toInt.toNat attempt.toInt ms.toInt time') ∧
      Starts seq.toInt.toNat attempt.toInt ms.toInt time' ∧
      (∀ timerSeq : Int64, 0 ≤ timerSeq.toInt → timerSeq.toInt ≤ 4294967295 →
        startTimerCommand timerSeq ms = .ok (.startTimer timerSeq timer)) ∧
      (TimerOk d timer ↔ Roundable d) := by
  obtain ⟨hattempt, haccepted⟩ := backoff_decoded h
  obtain ⟨ms, timer, hms, hnonneg, htimer, hshorter, hclose, hround⟩ :=
    timer_of_accepted (path' ++ text ".result.backoff_duration") (text "$.command.milliseconds")
      haccepted
  refine ⟨ms, timer, time.map fun time => ⟨time.seconds.toInt, time.nanoseconds⟩, ?_,
    starts hattempt hnonneg, fun timerSeq htimerSeq htimerSeqMax => ?_, ?_⟩
  · refine bind_ok.mpr ⟨(), validateSequence_ok hseq hseqMax, ?_⟩
    have hzero : (0 : Int64).toInt = 0 := rfl
    rw [if_neg (by rw [Int64.le_iff_toInt_le]; omega)]
    exact bind_ok.mpr ⟨ms, hms, rfl⟩
  · refine bind_ok.mpr ⟨(), validateSequence_ok htimerSeq htimerSeqMax, ?_⟩
    exact bind_ok.mpr ⟨timer, htimer, rfl⟩
  · rw [← hround]
    constructor
    · intro hok
      have hencoded := hok.encoded [] 1 (by decide) (by decide)
      exact (startTimer_iff (by decide) (by decide)).mp hencoded
    · intro htimerAccepted
      exact ⟨fun _ _ hs hs' => (startTimer_iff hs hs').mpr htimerAccepted, hshorter, hclose⟩

def backoffDocument (d : Duration) : Json :=
  .obj
    [(text "kind", .str (text "backoff")), (text "attempt", .int 2),
      (text "backoff_duration", durationJson d), (text "original_schedule_time", .null)]

/-- A delay with a fraction of a millisecond. -/
theorem retry_timer_iff_second :
    activityResolution [] (backoffDocument ⟨1, 500001⟩) = .ok (.backoff 2 ⟨1, 500001⟩ none) ∧
      ∃ (ms : Int64) (timer : Duration),
        startTimerCommand 7 ms = .ok (.startTimer 7 timer) ∧ TimerOk ⟨1, 500001⟩ timer := by
  have hdecoded : activityResolution [] (backoffDocument ⟨1, 500001⟩) =
      .ok (.backoff 2 ⟨1, 500001⟩ none) := rfl
  obtain ⟨ms, timer, _, -, -, htimer, hok⟩ :=
    @retry_timer_iff [] [] _ 1 _ _ _ (by decide) (by decide) hdecoded
  exact ⟨hdecoded, ms, timer, htimer 7 (by decide) (by decide), hok.mpr (by decide)⟩

/-- The longest delay that the decoder accepts is rounded up to a timer that the
encoder refuses. -/
theorem longest_delay_refused :
    activityResolution [] (backoffDocument ⟨315576000000, 999999999⟩) =
        .ok (.backoff 2 ⟨315576000000, 999999999⟩ none) ∧
      millisecondsOfDuration [] ⟨315576000000, 999999999⟩ = .ok 315576000001000 ∧
      startTimerCommand 7 315576000001000 = .ok (.startTimer 7 ⟨315576000001, 0⟩) ∧
      startTimer [] (startTimerJson 7 ⟨315576000001, 0⟩) =
        .error (invalid (text ".start_to_fire_timeout.seconds")
          "duration exceeds the protobuf maximum") :=
  ⟨rfl, rfl, rfl, rfl⟩

/-! ## Public durations -/

theorem toInt_max (a b : Int64) : (max a b).toInt = max a.toInt b.toInt := by
  change (if a ≤ b then b else a).toInt = _
  split_ifs with h
  · rw [Int64.le_iff_toInt_le] at h
    omega
  · rw [Int64.le_iff_toInt_le] at h
    omega

theorem toInt_min (a b : Int64) : (min a b).toInt = min a.toInt b.toInt := by
  change (if a ≤ b then a else b).toInt = _
  split_ifs with h
  · rw [Int64.le_iff_toInt_le] at h
    omega
  · rw [Int64.le_iff_toInt_le] at h
    omega

/-- The clamped duration in milliseconds, rounded up. -/
def exactMs (d : Duration) : Int :=
  max 0 d.seconds.toInt * 1000 + (max 0 (min 999999999 d.nanoseconds) + 999999) / 1000000

/-- The arithmetic of a conversion gives exact results. -/
structure NoWrap (d : Duration) : Prop where
  fraction : (clampedFractionMs d).toInt = (max 0 (min 999999999 d.nanoseconds) + 999999) / 1000000
  product : (clampedSeconds d * 1000).toInt = (clampedSeconds d).toInt * 1000
  sum : (clampedSeconds d * 1000 + clampedFractionMs d).toInt =
    (clampedSeconds d * 1000).toInt + (clampedFractionMs d).toInt

theorem noWrap {d : Duration} (h : clampedSeconds d ≤ maximumSeconds) : NoWrap d := by
  have hmax : maximumSeconds.toInt = 9223372036854774 := rfl
  have hzero : (0 : Int64).toInt = 0 := rfl
  have hseconds : (clampedSeconds d).toInt = max 0 d.seconds.toInt := toInt_max 0 d.seconds
  rw [Int64.le_iff_toInt_le, hmax] at h
  have hfraction : (clampedFractionMs d).toInt =
      (max 0 (min 999999999 d.nanoseconds) + 999999) / 1000000 :=
    fractionMs_toInt (by omega) (by omega)
  have hproduct : (clampedSeconds d * 1000).toInt = (clampedSeconds d).toInt * 1000 :=
    toInt_mul_thousand ⟨by omega, by omega⟩
  exact ⟨hfraction, hproduct, Representable.toInt_add ⟨by omega, by omega⟩⟩

theorem NoWrap.sum_eq {d : Duration} (h : NoWrap d) :
    (clampedSeconds d * 1000 + clampedFractionMs d).toInt = exactMs d := by
  rw [h.sum, h.product, h.fraction]
  exact congrArg (· * 1000 + _) (toInt_max 0 d.seconds)

theorem toInt_maximumMs : maximumMs.toInt = 315576000000999 := rfl

/-- Seconds beyond a guard make the duration longer than the largest public one. -/
theorem le_exactMs {d : Duration} {guard : Int64} (hguard : 315576000000 ≤ guard.toInt)
    (h : clampedSeconds d > guard) : maximumMs.toInt ≤ exactMs d := by
  have hseconds : (clampedSeconds d).toInt = max 0 d.seconds.toInt := toInt_max 0 d.seconds
  rw [gt_iff_lt, Int64.lt_iff_toInt_lt] at h
  rw [exactMs, toInt_maximumMs]
  omega

theorem infoMilliseconds_min (d : Duration) :
    (min (infoMilliseconds d) maximumMs).toInt = min (exactMs d) maximumMs.toInt := by
  rw [toInt_min, infoMilliseconds]
  split_ifs with h
  · have hle := le_exactMs (by decide) h
    rw [min_eq_right hle]
    decide
  · rw [(noWrap (Int64.not_lt.mp h)).sum_eq]

theorem workflowInfoMilliseconds_min (d : Duration) :
    (min (workflowInfoMilliseconds d) maximumMs).toInt = min (exactMs d) maximumMs.toInt := by
  rw [toInt_min, workflowInfoMilliseconds]
  split_ifs with h
  · have hle := le_exactMs (by decide) h
    rw [min_eq_right hle, min_self]
  · have hguard : maximumMs / 1000 ≤ maximumSeconds := by decide
    rw [(noWrap (Int64.le_trans (Int64.not_lt.mp h) hguard)).sum_eq]

/-- Both conversions return the rounded and clamped length. -/
theorem conversions_eq (d : Duration) :
    ∃ ms, infoDuration d = .ok ms ∧ workflowInfoDuration d = .ok ms ∧
      ms.toInt = min (exactMs d) maximumMs.toInt := by
  have hinfo := infoMilliseconds_min d
  have hworkflow := workflowInfoMilliseconds_min d
  have hsame : min (workflowInfoMilliseconds d) maximumMs = min (infoMilliseconds d) maximumMs :=
    Int64.toInt_inj.mp (hworkflow.trans hinfo.symm)
  have hexact : 0 ≤ exactMs d := by
    rw [exactMs]
    omega
  have hzero : (0 : Int64).toInt = 0 := rfl
  have hnonneg : ¬ min (infoMilliseconds d) maximumMs < 0 := by
    rw [Int64.lt_iff_toInt_lt, hinfo, toInt_maximumMs]
    omega
  have hle : ¬ min (infoMilliseconds d) maximumMs > maximumMs := by
    rw [gt_iff_lt, Int64.lt_iff_toInt_lt, hinfo]
    omega
  refine ⟨_, ?_, ?_, hinfo⟩
  · rw [infoDuration, baseOfMs, if_neg hnonneg]
  · rw [workflowInfoDuration, hsame, publicOfMs, if_neg hnonneg, if_neg hle]

/-- What the two conversions do with a duration. -/
structure ConversionOk (d : Duration) : Prop where
  same : infoDuration d = workflowInfoDuration d
  returns : ∃ ms, infoDuration d = .ok ms
  -- where a conversion multiplies, its results are exact
  infoExact : clampedSeconds d ≤ maximumSeconds → NoWrap d
  workflowInfoExact : clampedSeconds d ≤ maximumMs / 1000 → NoWrap d

theorem conversionOk (d : Duration) : ConversionOk d := by
  obtain ⟨ms, hinfo, hworkflow, -⟩ := conversions_eq d
  have hguard : maximumMs / 1000 ≤ maximumSeconds := by decide
  exact ⟨hinfo.trans hworkflow.symm, ⟨ms, hinfo⟩, noWrap, fun h => noWrap (Int64.le_trans h hguard)⟩

theorem length_le_exactMs {d : Duration} (h : Accepted d) :
    length d ≤ exactMs d * 1000000 ∧ exactMs d * 1000000 < length d + 1000000 := by
  obtain ⟨hs, -, hn, hnmax⟩ := h
  rw [length, exactMs, max_eq_right hs, min_eq_right hnmax, max_eq_right hn]
  omega

/-- Some document has this duration. -/
def Decoded (d : Duration) : Prop := ∃ path json, duration path json = .ok d

theorem Decoded.accepted {d : Duration} (h : Decoded d) : Accepted d := by
  obtain ⟨path, json, hdecoded⟩ := h
  exact accepted_of_duration hdecoded

/-- **Durations that workflow code gets to see**: the two conversions agree, always return and never
wrap around. They round up to a millisecond and stop at the longest duration that can be shown, so a
longer duration is shown no shorter. -/
theorem public_durations_ok :
    (∀ d, ConversionOk d) ∧
    (∀ d d' ms ms', Decoded d → Decoded d' → length d ≤ length d' →
      infoDuration d = .ok ms → infoDuration d' = .ok ms' → ms ≤ ms') ∧
    (∀ d ms, Decoded d → infoDuration d = .ok ms →
      (length d ≤ ms.toInt * 1000000 ∨ ms = maximumMs) ∧
        ms.toInt * 1000000 < length d + 1000000) := by
  refine ⟨conversionOk, ?_, ?_⟩
  · intro d d' ms ms' hd hd' hle hms hms'
    obtain ⟨_, hinfo, -, hvalue⟩ := conversions_eq d
    obtain ⟨_, hinfo', -, hvalue'⟩ := conversions_eq d'
    obtain rfl := Except.ok.inj (hms.symm.trans hinfo)
    obtain rfl := Except.ok.inj (hms'.symm.trans hinfo')
    have hexact := length_le_exactMs hd.accepted
    have hexact' := length_le_exactMs hd'.accepted
    rw [Int64.le_iff_toInt_le]
    omega
  · intro d ms hd hms
    obtain ⟨_, hinfo, -, hvalue⟩ := conversions_eq d
    obtain rfl := Except.ok.inj (hms.symm.trans hinfo)
    have hexact := length_le_exactMs hd.accepted
    rw [← Int64.toInt_inj]
    omega

/-- One nanosecond more is one millisecond more. -/
theorem public_durations_ok_half_minute :
    Decoded ⟨30, 0⟩ ∧ Decoded ⟨30, 1⟩ ∧ infoDuration ⟨30, 0⟩ = .ok 30000 ∧
      infoDuration ⟨30, 1⟩ = .ok 30001 ∧ (30000 : Int64) ≤ 30001 ∧
      (length ⟨30, 1⟩ ≤ (30001 : Int64).toInt * 1000000 ∨ (30001 : Int64) = maximumMs) := by
  have hfirst : Decoded ⟨30, 0⟩ := ⟨[], durationJson ⟨30, 0⟩, rfl⟩
  have hsecond : Decoded ⟨30, 1⟩ := ⟨[], durationJson ⟨30, 1⟩, rfl⟩
  obtain ⟨-, hmonotone, hbounds⟩ := public_durations_ok
  exact ⟨hfirst, hsecond, rfl, rfl, hmonotone _ _ _ _ hfirst hsecond (by decide) rfl rfl,
    (hbounds _ _ hsecond rfl).1⟩

end OcamlTemporal.Protocol.Durations
