import OcamlTemporal.Bridge.CoreFailure
import OcamlTemporal.Lib.Outcome
import OcamlTemporal.Protocol.Retryability

/-!
# OcamlTemporal.Sound.FailureChain

What the conversion of a Core failure keeps of its chain: at most 100 layers, each layer but
the synthetic one converted from the Core layer at its depth, and the decision whether the
failure is retried.

The decision is the first one in the chain (`firstDecision`). The OCaml function looks for it
in at most 129 layers (`failureNonRetryable_eq_firstDecision`), which is every layer of a
converted chain but not of an arbitrary one; the Rust loop over the omitted tail has no bound.
-/

namespace OcamlTemporal.Bridge.Inbound

open Lib (bind_ok)
open Protocol (Bytes text Failure FailureInfo firstDecision failureNonRetryable
  nexusHandlerTypeNonRetryable firstDecision_cons)
open Control (maxStringBytes)

/-! ## Chains -/

namespace CoreFailure

/-- The layers of a chain, from the outermost failure to the last cause. -/
def layers : CoreFailure → List CoreFailure
  | ⟨message, source, stackTrace, encodedAttributes, cause, info⟩ =>
    ⟨message, source, stackTrace, encodedAttributes, cause, info⟩ ::
      match cause with
      | some cause => cause.layers
      | none => []

def alone (c : CoreFailure) : CoreFailure := { c with cause := none }

theorem layers_eq (c : CoreFailure) : c.layers = c :: (c.cause.elim [] layers) := by
  obtain ⟨message, source, stackTrace, encodedAttributes, cause, info⟩ := c
  rw [layers.eq_def]
  cases cause <;> rfl

theorem layers_length_pos (c : CoreFailure) : 0 < c.layers.length := by
  rw [layers_eq]
  exact Nat.succ_pos _

end CoreFailure

def aloneLayer (f : Failure) : Failure := { f with cause := none }

/-- The cause of a layer, converted: the second `match` of the source. -/
def causeFromCore (layer : Nat) : Option CoreFailure → Except CoreConversionError (Option Failure)
  | none => .ok none
  | some cause =>
    if layer + 1 < maxInboundFailureLayers ∨ cause.cause = none then
      (failureFromCoreAt (layer + 1) cause).map some
    else .ok (some (omittedCausesFailure cause))

theorem failureFromCoreAt_eq (layer : Nat) (c : CoreFailure) :
    failureFromCoreAt layer c = (do
      let info ← infoFromCore c.failureInfo
      let cause ← causeFromCore layer c.cause
      let encodedAttributes ← attributesFromCore c.encodedAttributes
      return ⟨inboundText c.message, inboundText c.source, inboundText c.stackTrace,
        encodedAttributes, cause, info⟩) := by
  obtain ⟨message, source, stackTrace, encodedAttributes, cause, info⟩ := c
  rw [failureFromCoreAt.eq_def]
  cases cause <;> rfl

theorem failureFromCoreAt_ok {layer : Nat} {c : CoreFailure} {f : Failure} :
    failureFromCoreAt layer c = .ok f ↔
      infoFromCore c.failureInfo = .ok f.info ∧ causeFromCore layer c.cause = .ok f.cause ∧
        attributesFromCore c.encodedAttributes = .ok f.encodedAttributes ∧
        f.message = inboundText c.message ∧ f.source = inboundText c.source ∧
        f.stackTrace = inboundText c.stackTrace := by
  obtain ⟨message, source, stackTrace, encodedAttributes, cause, info⟩ := f
  rw [failureFromCoreAt_eq]
  simp only [bind_ok, pure, Except.pure, Except.ok.injEq, Failure.mk.injEq]
  constructor
  · rintro ⟨_, hinfo, _, hcause, _, hattributes, rfl, rfl, rfl, rfl, rfl, rfl⟩
    exact ⟨hinfo, hcause, hattributes, rfl, rfl, rfl⟩
  · rintro ⟨hinfo, hcause, hattributes, rfl, rfl, rfl⟩
    exact ⟨_, hinfo, _, hcause, _, hattributes, rfl, rfl, rfl, rfl, rfl, rfl⟩

theorem failureFromCore_alone {layer : Nat} {c : CoreFailure} {f : Failure}
    (h : failureFromCoreAt layer c = .ok f) : failureFromCore c.alone = .ok (aloneLayer f) := by
  obtain ⟨hinfo, -, hattributes, hmessage, hsource, hstackTrace⟩ := failureFromCoreAt_ok.mp h
  exact failureFromCoreAt_ok.mpr ⟨hinfo, rfl, hattributes, hmessage, hsource, hstackTrace⟩

/-- The cause of a converted failure is converted, unless the limit cuts the chain there. -/
theorem causeFromCore_some {layer : Nat} {c : CoreFailure} {cause : Option Failure}
    (h : causeFromCore layer (some c) = .ok cause) :
    (∃ f, cause = some f ∧ failureFromCoreAt (layer + 1) c = .ok f ∧
        (layer + 1 < maxInboundFailureLayers ∨ c.cause = none)) ∨
      cause = some (omittedCausesFailure c) ∧ maxInboundFailureLayers ≤ layer + 1 ∧
        ∃ next, c.cause = some next := by
  rw [causeFromCore] at h
  split_ifs at h with hlayer
  · cases hf : failureFromCoreAt (layer + 1) c with
    | error e =>
      rw [hf] at h
      exact nomatch h
    | ok f =>
      rw [hf] at h
      exact .inl ⟨f, (Except.ok.inj h).symm, rfl, hlayer⟩
  · rw [not_or] at hlayer
    exact .inr ⟨(Except.ok.inj h).symm, Nat.le_of_not_lt hlayer.1,
      Option.ne_none_iff_exists'.mp hlayer.2⟩

/-! ## Layers -/

/-- The number of layers, if layer `layer` is one that the conversion reaches. -/
theorem length_layers_of_converted : (c : CoreFailure) → {layer : Nat} → {f : Failure} →
    failureFromCoreAt layer c = .ok f →
    (layer < maxInboundFailureLayers ∨ layer = maxInboundFailureLayers ∧ c.cause = none) →
    f.layers.length = min c.layers.length (maxInboundFailureLayers + 1 - layer)
  | ⟨message, source, stackTrace, encodedAttributes, cause, info⟩, layer, f, h, hlayer => by
    obtain ⟨-, hcause, -⟩ := failureFromCoreAt_ok.mp h
    rw [Failure.layers_eq, CoreFailure.layers_eq]
    cases cause with
    | none =>
      rw [← Except.ok.inj hcause]
      simp only [Option.elim_none, List.length_cons, List.length_nil]
      omega
    | some c =>
      have hlt : layer < maxInboundFailureLayers :=
        hlayer.resolve_right fun hlast => nomatch hlast.2
      obtain ⟨f', hf', hconverted, hnext⟩ | ⟨hf', hmax, next, hnext⟩ := causeFromCore_some hcause
      · have hlength := length_layers_of_converted c hconverted (by
          rcases hnext with hnext | hnext
          · exact .inl hnext
          · by_cases hcap : layer + 1 < maxInboundFailureLayers
            · exact .inl hcap
            · exact .inr ⟨by omega, hnext⟩)
        simp only [hf', Option.elim_some, List.length_cons, hlength]
        omega
      · have hsynthetic : (omittedCausesFailure c).layers.length = 1 := by
          rw [Failure.layers_eq]
          rfl
        have hlong : 2 ≤ c.layers.length := by
          rw [CoreFailure.layers_eq, hnext]
          exact Nat.succ_le_succ next.layers_length_pos
        simp only [hf', Option.elim_some, List.length_cons, hsynthetic]
        omega

/-- Every layer up to the synthetic one is converted from the Core layer at its depth. -/
theorem layer_of_converted : (c : CoreFailure) → {layer : Nat} → {f : Failure} →
    failureFromCoreAt layer c = .ok f → ∀ {i : Nat} {l : Failure}, f.layers[i]? = some l →
    i + layer < maxInboundFailureLayers ∨ c.layers.length + layer ≤ maxInboundFailureLayers + 1 →
    ∃ core, c.layers[i]? = some core ∧ failureFromCore core.alone = .ok (aloneLayer l)
  | ⟨message, source, stackTrace, encodedAttributes, cause, info⟩, layer, f, h, i, l, hl, hi => by
    obtain ⟨-, hcause, -⟩ := failureFromCoreAt_ok.mp h
    rw [Failure.layers_eq] at hl
    rw [CoreFailure.layers_eq]
    cases i with
    | zero =>
      cases hl
      exact ⟨_, rfl, failureFromCore_alone h⟩
    | succ i =>
      rw [List.getElem?_cons_succ] at hl
      cases cause with
      | none =>
        rw [← Except.ok.inj hcause] at hl
        exact nomatch hl
      | some c =>
        rw [CoreFailure.layers_eq] at hi
        simp only [Option.elim_some, List.length_cons] at hi
        obtain ⟨f', hf', hconverted, -⟩ | ⟨hf', hmax, next, hnext⟩ := causeFromCore_some hcause
        · rw [hf', Option.elim_some] at hl
          exact layer_of_converted c hconverted hl (by omega)
        · -- the synthetic layer is beyond every depth that is asked for
          have hlong : 2 ≤ c.layers.length := by
            rw [CoreFailure.layers_eq, hnext]
            exact Nat.succ_le_succ next.layers_length_pos
          omega

/-! ## The decision -/

/-- The types in question have no line break, the marker of an oversized text has one. -/
theorem nonRetryableType_inboundText (typeName : Bytes) :
    nexusHandlerTypeNonRetryable (inboundText typeName) =
      nexusNonRetryableTypes.contains typeName := by
  by_cases hlength : typeName.length ≤ maxStringBytes
  · rw [inboundText, if_pos hlength]
    rfl
  · have hshort : ∀ t ∈ nexusNonRetryableTypes, t.length ≤ maxStringBytes ∧ (10 : UInt8) ∉ t := by
      decide +kernel
    have hmarker : (10 : UInt8) ∈ inboundText typeName := by
      rw [inboundText, if_neg hlength]
      refine List.mem_append_right _ (List.mem_append_left _ (List.mem_append_left _ ?_))
      decide +kernel
    have hin : inboundText typeName ∉ nexusNonRetryableTypes := fun h => (hshort _ h).2 hmarker
    have hout : typeName ∉ nexusNonRetryableTypes := fun h => hlength (hshort _ h).1
    rw [List.contains_eq_mem, decide_eq_false hout]
    exact (List.contains_eq_mem _ _).trans (decide_eq_false hin)

/-- A layer decides after the conversion what it decided before. -/
theorem decision_of_infoFromCore {info : Option CoreFailureInfo} {i : FailureInfo}
    (h : infoFromCore info = .ok i) : i.decision = coreDecision info := by
  rcases info with _ | info
  · cases h
    rfl
  cases info with
  | application =>
    obtain ⟨_, -, h⟩ := bind_ok.mp h
    obtain ⟨_, -, h⟩ := bind_ok.mp h
    cases h
    rfl
  | canceled | timeout | resetWorkflow =>
    obtain ⟨_, -, h⟩ := bind_ok.mp h
    cases h
    rfl
  | activity _ _ _ _ _ retryState | childWorkflowExecution _ _ _ _ _ retryState =>
    cases h
    rcases retryState with _ | retryState
    · rfl
    · cases retryState <;> rfl
  | nexusHandler typeName retryBehavior =>
    cases h
    rcases retryBehavior with _ | retryBehavior
    · exact congrArg some (nonRetryableType_inboundText typeName)
    · cases retryBehavior with
      | unspecified => exact congrArg some (nonRetryableType_inboundText typeName)
      | _ => rfl
  | _ =>
    cases h
    rfl

theorem omittedTailNonRetryable_eq (c : CoreFailure) :
    omittedTailNonRetryable c =
      (coreDecision c.failureInfo).getD (c.cause.elim false omittedTailNonRetryable) := by
  obtain ⟨message, source, stackTrace, encodedAttributes, cause, info⟩ := c
  rw [omittedTailNonRetryable.eq_def]
  dsimp only
  cases coreDecision info <;> cases cause <;> rfl

theorem firstDecision_omittedCausesFailure (c : CoreFailure) :
    firstDecision (omittedCausesFailure c).layers = omittedTailNonRetryable c := by
  rw [Failure.layers_eq, firstDecision_cons]
  simp only [omittedCausesFailure]
  cases omittedTailNonRetryable c <;> rfl

/-- Converted layers and the synthetic layer together decide as the Core chain does. -/
theorem firstDecision_of_converted : (c : CoreFailure) → {layer : Nat} → {f : Failure} →
    failureFromCoreAt layer c = .ok f → firstDecision f.layers = omittedTailNonRetryable c
  | ⟨message, source, stackTrace, encodedAttributes, cause, info⟩, layer, f, h => by
    obtain ⟨hinfo, hcause, -⟩ := failureFromCoreAt_ok.mp h
    rw [Failure.layers_eq, firstDecision_cons, omittedTailNonRetryable_eq,
      decision_of_infoFromCore hinfo]
    congr 1
    cases cause with
    | none =>
      rw [← Except.ok.inj hcause]
      rfl
    | some c =>
      obtain ⟨f', hf', hconverted, -⟩ | ⟨hf', -⟩ := causeFromCore_some hcause
      · rw [hf', Option.elim_some, Option.elim_some, firstDecision_of_converted c hconverted]
      · rw [hf', Option.elim_some, Option.elim_some, firstDecision_omittedCausesFailure]

/-! ## The whole chain, converted -/

/-- The conversion layer by layer, without a limit of layers. -/
def failureFromCoreUnbounded : CoreFailure → Except CoreConversionError Failure
  | ⟨message, source, stackTrace, encodedAttributes, cause, info⟩ => do
    let info ← infoFromCore info
    let cause ← (match cause with
      | none => .ok none
      | some cause => (failureFromCoreUnbounded cause).map some)
    let encodedAttributes ← attributesFromCore encodedAttributes
    return ⟨inboundText message, inboundText source, inboundText stackTrace, encodedAttributes,
      cause, info⟩

theorem firstDecision_of_unbounded : (c : CoreFailure) → {full : Failure} →
    failureFromCoreUnbounded c = .ok full → firstDecision full.layers = omittedTailNonRetryable c
  | ⟨message, source, stackTrace, encodedAttributes, cause, info⟩, full, h => by
    rw [failureFromCoreUnbounded.eq_def] at h
    obtain ⟨info', hinfo, h⟩ := bind_ok.mp h
    obtain ⟨cause', hcause, h⟩ := bind_ok.mp h
    obtain ⟨_, -, h⟩ := bind_ok.mp h
    cases h
    rw [Failure.layers_eq, firstDecision_cons, omittedTailNonRetryable_eq,
      decision_of_infoFromCore hinfo]
    congr 1
    cases cause with
    | none =>
      cases hcause
      rfl
    | some c =>
      cases hfull : failureFromCoreUnbounded c with
      | error e =>
        simp only [hfull] at hcause
        exact nomatch hcause
      | ok full' =>
        simp only [hfull] at hcause
        cases hcause
        exact firstDecision_of_unbounded c hfull

/-- **Inbound failure chains.** A converted chain has as many layers as the Core chain, up to
the limit. Every layer but the synthetic one is the conversion of the Core layer at its depth.
What the OCaml runtime decides about retries on the converted chain is what its rule, the first
decision in the chain, gives on the whole chain converted layer by layer; it is also what the
Rust loop reads from the Core chain, whether the omitted layers can be converted or not. -/
theorem converted_chain_keeps_decision (c : CoreFailure) (f : Failure)
    (h : failureFromCore c = .ok f) :
    f.layers.length = min c.layers.length maxInboundFailureLayers ∧
      (∀ i l, f.layers[i]? = some l →
        i + 1 < maxInboundFailureLayers ∨ c.layers.length ≤ maxInboundFailureLayers →
        ∃ core, c.layers[i]? = some core ∧ failureFromCore core.alone = .ok (aloneLayer l)) ∧
      failureNonRetryable f = omittedTailNonRetryable c ∧
      ∀ full, failureFromCoreUnbounded c = .ok full →
        failureNonRetryable f = firstDecision full.layers := by
  have hlength := length_layers_of_converted c h (.inl (by decide))
  have hdecision : failureNonRetryable f = omittedTailNonRetryable c := by
    rw [Protocol.failureNonRetryable_eq_firstDecision, List.take_of_length_le,
      firstDecision_of_converted c h]
    have hmax : maxInboundFailureLayers = 100 := rfl
    omega
  refine ⟨hlength, fun i l hl hi => ?_, hdecision, fun full hfull => ?_⟩
  · exact layer_of_converted c h hl (hi.imp_right fun hshort => Nat.succ_le_succ hshort)
  · rw [hdecision, firstDecision_of_unbounded c hfull]

/-- A chain of layers without info over one that terminates the workflow. -/
def deferringChain : Nat → CoreFailure
  | 0 => ⟨[], [], [], none, none, some (.terminated [])⟩
  | n + 1 => ⟨[], [], [], none, some (deferringChain n), none⟩

theorem converted_chain_keeps_decision_deferring :
    ∃ f, failureFromCore (deferringChain 120) = .ok f ∧
    f.layers.length = min (deferringChain 120).layers.length maxInboundFailureLayers ∧
      (∀ i l, f.layers[i]? = some l →
        i + 1 < maxInboundFailureLayers ∨
          (deferringChain 120).layers.length ≤ maxInboundFailureLayers →
        ∃ core, (deferringChain 120).layers[i]? = some core ∧
          failureFromCore core.alone = .ok (aloneLayer l)) ∧
      failureNonRetryable f = omittedTailNonRetryable (deferringChain 120) ∧
      ∀ full, failureFromCoreUnbounded (deferringChain 120) = .ok full →
        failureNonRetryable f = firstDecision full.layers := by
  cases h : failureFromCore (deferringChain 120) with
  | error e =>
    have hok : (failureFromCore (deferringChain 120)).isOk = true := by decide +kernel
    rw [h] at hok
    exact nomatch hok
  | ok f => exact ⟨f, rfl, converted_chain_keeps_decision _ f h⟩

/-- Below 129 layers that defer, the last layer is not reached by the recursion of the OCaml
function on the whole chain, while the Rust loop reaches it: the converted chain is not
retried, and the function would retry the chain converted layer by layer. -/
theorem recursion_bound_misses_decision :
    (failureFromCore (deferringChain 129)).map failureNonRetryable = .ok true ∧
      (failureFromCoreUnbounded (deferringChain 129)).map failureNonRetryable = .ok false := by
  constructor <;> decide +kernel

end OcamlTemporal.Bridge.Inbound
