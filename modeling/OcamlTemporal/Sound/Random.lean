import Mathlib.Data.Int.CardIntervalMod
import Mathlib.Data.Set.Function
import OcamlTemporal.Lib.XorLinear
import OcamlTemporal.Runtime.Context

/-!
# OcamlTemporal.Sound.Random

The random stream of a workflow: its generator permutes the non-zero words, and
`random_int` draws without bias.

The step of the generator commutes with `xor`, so it is injective because no other
word than zero is mapped to zero (`xorshift_eq_zero`). The rejection loop ends because
an odd number of powers of the step sum up to zero (`marks_sum`, checked on the powers
of two): bit 62 cannot stay set along 65 words, and a sample below `2 ^ 62` is accepted
for every bound that a native integer holds.
-/

namespace OcamlTemporal.Random

open Lib

/-! ## The generator -/

/-- The step of the generator before its fallback for zero. -/
def xorshift (value : BitVec 64) : BitVec 64 :=
  let value := value ^^^ (value <<< 13)
  let value := value ^^^ (value >>> 7)
  value ^^^ (value <<< 17)

theorem nextWord_eq (value : BitVec 64) :
    nextWord value = if xorshift value = 0 then 1 else xorshift value := rfl

theorem xorshift_linear : XorLinear xorshift := by
  have hleft : ∀ k, XorLinear fun x : BitVec 64 => x ^^^ x <<< k := fun k =>
    XorLinear.id.xor (XorLinear.shiftLeft k)
  have hright : XorLinear fun x : BitVec 64 => x ^^^ x >>> 7 :=
    XorLinear.id.xor (XorLinear.shiftRight 7)
  exact (hleft 17).comp (hright.comp (hleft 13))

theorem xorshift_eq_zero {value : BitVec 64} (h : xorshift value = 0) : value = 0 := by
  have h₁ := eq_zero_of_xor_shiftLeft (by decide) h
  have h₂ := eq_zero_of_xor_shiftRight (by decide) h₁
  exact eq_zero_of_xor_shiftLeft (by decide) h₂

theorem xorshift_injective : Function.Injective xorshift :=
  xorshift_linear.injective fun _ => xorshift_eq_zero

/-- The powers of the step that sum up to zero, from its characteristic polynomial. -/
def powers : List Nat :=
  [0, 9, 12, 13, 16, 20, 23, 27, 28, 30, 32, 33, 37, 39, 42, 44, 46, 47, 49, 50, 51, 52, 53, 56, 64]

def marks : List Bool := (List.range 65).map fun k => k ∈ powers

theorem length_marks : marks.length = 65 := by
  rw [marks, List.length_map, List.length_range]

theorem marks_parity : parity marks = true := by decide +kernel

theorem marks_sum (value : BitVec 64) : iterateSum xorshift marks value = 0 :=
  (xorshift_linear.iterateSum marks).eq_zero (by decide +kernel) value

theorem nextWord_of_ne_zero {value : BitVec 64} (h : value ≠ 0) :
    nextWord value = xorshift value ∧ nextWord value ≠ 0 := by
  have hne : xorshift value ≠ 0 := fun hzero => h (xorshift_eq_zero hzero)
  rw [nextWord_eq, if_neg hne]
  exact ⟨rfl, hne⟩

theorem iterate_of_ne_zero {value : BitVec 64} (h : value ≠ 0) (n : Nat) :
    nextWord^[n] value = xorshift^[n] value ∧ nextWord^[n] value ≠ 0 := by
  induction n with
  | zero => exact ⟨rfl, h⟩
  | succ n ih =>
    obtain ⟨heq, hne⟩ := ih
    obtain ⟨hstep, hstepNe⟩ := nextWord_of_ne_zero hne
    rw [Function.iterate_succ_apply', Function.iterate_succ_apply', ← heq]
    exact ⟨hstep, hstepNe⟩

/-- Onto as well, since there are finitely many words. -/
theorem nextWord_bijOn : Set.BijOn nextWord {0}ᶜ {0}ᶜ := by
  refine ⟨fun x hx => (nextWord_of_ne_zero hx).2, fun x hx y hy hxy => ?_, fun y hy => ?_⟩
  · rw [(nextWord_of_ne_zero hx).1, (nextWord_of_ne_zero hy).1] at hxy
    exact xorshift_injective hxy
  · have hfinite : Finite (BitVec 64) :=
      Finite.of_injective BitVec.toFin fun _ _ h => BitVec.eq_of_toFin_eq h
    obtain ⟨x, rfl⟩ := Finite.surjective_of_injective xorshift_injective y
    have hx : x ≠ 0 := by
      rintro rfl
      exact hy xorshift_linear.map_zero
    exact ⟨x, hx, (nextWord_of_ne_zero hx).1⟩

theorem seedOfDecimal_ne_zero {seed : String} {state : BitVec 64}
    (h : seedOfDecimal seed = some state) : state ≠ 0 := by
  unfold seedOfDecimal at h
  dsimp only at h
  split at h
  · cases h
  · obtain rfl := Option.some.inj h
    split_ifs with hzero
    · decide
    · exact hzero

/-! ## Rejection sampling -/

def sample (word : BitVec 64) : Nat := word.toNat % 2 ^ 63

def rejectionLimit (bound : Nat) : Nat := maxInt - maxInt % bound

/-- The first accepted word decides, if one is within reach. -/
theorem draw_eq {limit bound fuel : Nat} {state : BitVec 64}
    (h : ∃ k < fuel, sample (nextWord^[k + 1] state) < limit) :
    ∃ k < fuel, (∀ j < k, limit ≤ sample (nextWord^[j + 1] state)) ∧
      sample (nextWord^[k + 1] state) < limit ∧
      draw limit bound fuel state =
        (nextWord^[k + 1] state, sample (nextWord^[k + 1] state) % bound) := by
  induction fuel generalizing state with
  | zero =>
    obtain ⟨k, hk, -⟩ := h
    exact absurd hk (Nat.not_lt_zero k)
  | succ fuel ih =>
    rw [draw]
    by_cases hfirst : limit ≤ sample (nextWord state)
    · obtain ⟨k, hk, haccepted⟩ := h
      match k with
      | 0 => exact absurd haccepted (Nat.not_lt.mpr hfirst)
      | k + 1 =>
        obtain ⟨m, hm, hbefore, haccepted, hdraw⟩ :=
          @ih (nextWord state) ⟨k, Nat.lt_of_succ_lt_succ hk, haccepted⟩
        refine ⟨m + 1, Nat.succ_lt_succ hm, fun j hj => ?_, haccepted, ?_⟩
        · match j with
          | 0 => exact hfirst
          | j + 1 => exact hbefore j (Nat.lt_of_succ_lt_succ hj)
        · exact (if_pos hfirst).trans hdraw
    · exact ⟨0, Nat.succ_pos _, fun j hj => absurd hj (Nat.not_lt_zero j),
        Nat.not_le.mp hfirst, if_neg hfirst⟩

theorem sample_lt_of_getLsbD {word : BitVec 64} (h : word.getLsbD 62 = false) :
    sample word < 2 ^ 62 := by
  rw [BitVec.getLsbD, Nat.testBit_eq_decide_div_mod_eq, decide_eq_false_iff_not] at h
  rw [sample]
  omega

theorem le_rejectionLimit {bound : Nat} (hpos : 0 < bound) (hbound : bound < 2 ^ 62) :
    2 ^ 62 ≤ rejectionLimit bound := by
  have hmod := Nat.mod_lt maxInt hpos
  rw [rejectionLimit]
  simp only [maxInt] at hmod ⊢
  omega

/-- Within any 65 words one is accepted. -/
theorem int_eq {bound : Nat} (hpos : 0 < bound) (hbound : bound < 2 ^ 62) {state : BitVec 64}
    (hstate : state ≠ 0) :
    ∃ k < 65, (∀ j < k, rejectionLimit bound ≤ sample (nextWord^[j + 1] state)) ∧
      sample (nextWord^[k + 1] state) < rejectionLimit bound ∧
      int bound state = (nextWord^[k + 1] state, sample (nextWord^[k + 1] state) % bound) := by
  have hnext := (nextWord_of_ne_zero hstate).2
  obtain ⟨k, hk, hbit⟩ := exists_getLsbD_false marks_parity marks_sum (nextWord state) 62
  rw [length_marks] at hk
  rw [← (iterate_of_ne_zero hnext k).1, ← Function.iterate_succ_apply] at hbit
  have haccepted : sample (nextWord^[k + 1] state) < rejectionLimit bound :=
    Nat.lt_of_lt_of_le (sample_lt_of_getLsbD hbit) (le_rejectionLimit hpos hbound)
  obtain ⟨m, -, hbefore, hm, hdraw⟩ := @draw_eq (rejectionLimit bound) bound (2 ^ 64) state
    ⟨k, by omega, haccepted⟩
  refine ⟨m, ?_, hbefore, hm, hdraw⟩
  -- the first accepted word does not come after the one found
  by_contra hlate
  exact absurd haccepted (Nat.not_lt.mpr (hbefore k (by omega)))

/-- The number of accepted samples with a given residue; the limit is a multiple of
the bound. -/
theorem card_residue {bound : Nat} (hpos : 0 < bound) {r : Nat} (hr : r < bound) :
    ((Finset.range (2 ^ 63)).filter fun s => s < rejectionLimit bound ∧ s % bound = r).card =
      maxInt / bound := by
  have hlimit : rejectionLimit bound = bound * (maxInt / bound) := by
    have hdiv := Nat.div_add_mod maxInt bound
    rw [rejectionLimit]
    omega
  have hle : rejectionLimit bound ≤ 2 ^ 63 :=
    Nat.le_trans (Nat.sub_le _ _) (by decide)
  have hfilter :
      ((Finset.range (2 ^ 63)).filter fun s => s < rejectionLimit bound ∧ s % bound = r) =
        (Finset.range (rejectionLimit bound)).filter (· ≡ r [MOD bound]) := by
    ext s
    simp only [Finset.mem_filter, Finset.mem_range, Nat.ModEq, Nat.mod_eq_of_lt hr]
    omega
  rw [hfilter, ← Nat.count_eq_card_filter_range, Nat.count_modEq_card _ hpos, hlimit,
    Nat.mul_div_cancel_left _ hpos, Nat.mul_mod_right, if_neg (Nat.not_lt_zero _), Nat.add_zero]

/-! ## Draws of a workflow -/

/-- The later state is a word of the stream that starts after the earlier one. -/
def Follows (state state' : BitVec 64) : Prop := ∃ draws, state' = nextWord^[draws] state

theorem follows_fill (fuel length : Nat) (state : BitVec 64) :
    Follows state (fill fuel length state).1 := by
  induction fuel generalizing length state with
  | zero => exact ⟨0, rfl⟩
  | succ fuel ih =>
    rw [fill]
    split_ifs
    · exact ⟨0, rfl⟩
    · obtain ⟨draws, h⟩ := ih (length - 8) (nextWord state)
      exact ⟨draws + 1, h⟩

/-- What `random_int` does with a bound, whatever was drawn before. -/
structure RandomIntOk {P : Program} (c : Context P) (bound : Nat) : Prop where
  inRange : ∀ c' value, c.randomInt bound = (c', .ok value) → value < bound
  /-- The residue of the first accepted word is returned, and there is one. -/
  returns : c.isSealed = false → c.randomnessDisabled = false →
    ∃ k, (∀ j < k, rejectionLimit bound ≤ sample (nextWord^[j + 1] c.randomState)) ∧
      sample (nextWord^[k + 1] c.randomState) < rejectionLimit bound ∧
      c.randomInt bound =
        ({ c with randomState := nextWord^[k + 1] c.randomState },
          .ok (sample (nextWord^[k + 1] c.randomState) % bound))

theorem randomIntOk {P : Program} {c : Context P} (hstate : c.randomState ≠ 0) {bound : Nat}
    (hpos : 0 < bound) (hbound : bound < 2 ^ 62) : RandomIntOk c bound := by
  obtain ⟨k, -, hbefore, haccepted, hint⟩ := int_eq hpos hbound hstate
  have hrandom : c.randomInt bound =
      c.drawRandom none (int bound) := by
    rw [Context.randomInt, if_neg (by omega), Int.toNat_natCast]
  constructor
  · intro c' value h
    rw [hrandom, Context.drawRandom] at h
    split at h
    · cases h
    split at h
    · cases h
    rw [hint] at h
    obtain ⟨-, hvalue⟩ := Prod.mk.inj h
    obtain rfl := Except.ok.inj hvalue
    exact Nat.mod_lt _ hpos
  · intro hsealed hdisabled
    refine ⟨k, hbefore, haccepted, ?_⟩
    rw [hrandom, Context.drawRandom, if_neg (by rw [hsealed]; decide),
      if_neg (by rw [hdisabled]; decide), hint]

/-- What holds at a word of a workflow's stream. -/
structure StreamOk (state : BitVec 64) : Prop where
  -- the generator's fallback for zero is not taken
  noFallback : xorshift state ≠ 0
  float : Follows state (float state).1
  bytes : ∀ length, Follows state (bytes length state).1
  int : ∀ bound, 0 < bound → bound < 2 ^ 62 → Follows state (int bound state).1 ∧
    ∀ (P : Program) (c : Context P), c.randomState = state → RandomIntOk c bound

theorem streamOk {state : BitVec 64} (hstate : state ≠ 0) : StreamOk state := by
  refine ⟨fun h => hstate (xorshift_eq_zero h), ⟨1, rfl⟩, fun length => follows_fill ..,
    fun bound hpos hbound => ⟨?_, ?_⟩⟩
  · obtain ⟨k, -, -, -, hint⟩ := int_eq hpos hbound hstate
    exact ⟨k + 1, congrArg Prod.fst hint⟩
  · rintro P c rfl
    exact randomIntOk hstate hpos hbound

/-- **The random stream of a workflow** never gets stuck at zero, from any seed and after any number
of draws. Every draw leaves a later word of the same stream, and an integer draw is fair: of the
words that are not rejected equally many give each residue. One step of the generator permutes the
nonzero words. -/
theorem random_ok :
    (∀ seed state, seedOfDecimal seed = some state → ∀ draws, StreamOk (nextWord^[draws] state)) ∧
    (∀ bound, 0 < bound → bound < 2 ^ 62 → ∃ count, 0 < count ∧ ∀ r < bound,
      ((Finset.range (2 ^ 63)).filter
        fun s => s < rejectionLimit bound ∧ s % bound = r).card = count) ∧
    Set.BijOn nextWord {0}ᶜ {0}ᶜ := by
  refine ⟨fun seed state hseed draws => ?_, fun bound hpos hbound => ?_, nextWord_bijOn⟩
  · exact streamOk (iterate_of_ne_zero (seedOfDecimal_ne_zero hseed) draws).2
  · refine ⟨maxInt / bound, Nat.div_pos ?_ hpos, fun r hr => card_residue hpos hr⟩
    rw [maxInt]
    omega

/-- A die thrown after a hundred draws. -/
theorem random_ok_die :
    ∃ state, seedOfDecimal "42" = some state ∧
      (∀ (P : Program) (c : Context P), c.randomState = nextWord^[100] state →
        RandomIntOk c 6) ∧
      ∃ count, 0 < count ∧ ∀ r < 6,
        ((Finset.range (2 ^ 63)).filter
          fun s => s < rejectionLimit 6 ∧ s % 6 = r).card = count := by
  refine ⟨42, by decide, ?_, random_ok.2.1 6 (by decide) (by decide)⟩
  exact ((random_ok.1 "42" 42 (by decide) 100).int 6 (by decide) (by decide)).2

end OcamlTemporal.Random
