import OcamlTemporal.Protocol.Values

/-!
# OcamlTemporal.Protocol.Retryability

Whether a failure is retried (`failure_non_retryable` of `lib/protocol/workflow_protocol.ml`).
The first layer of the chain that has a decision of its own decides; the other layers defer to
their cause. The recursion of the source stops after 129 layers.
-/

namespace OcamlTemporal.Protocol

/-- Handler errors that the Nexus specification does not retry by default. -/
def nexusHandlerTypeNonRetryable (typeName : Bytes) : Bool :=
  [text "BAD_REQUEST", text "UNAUTHENTICATED", text "UNAUTHORIZED", text "NOT_FOUND",
    text "NOT_IMPLEMENTED", text "CONFLICT"].contains typeName

def failureNonRetryableLoop (depth : Nat) : Failure → Bool
  | ⟨_, _, _, _, cause, info⟩ =>
    let nested :=
      match cause with
      | some cause => if depth < 128 then failureNonRetryableLoop (depth + 1) cause else false
      | none => false
    match info with
    | .application _ nonRetryable _ _ _ => nonRetryable
    | .canceled _ _ => false
    | .terminated _ => true
    | .activity _ _ _ _ _ retryState | .childWorkflow _ _ _ _ _ _ retryState =>
      match retryState with
      | .nonRetryableFailure | .maximumAttemptsReached => true
      | .retryPolicyNotSet | .unspecified => nested
      | .inProgress | .timeout | .internalServerError | .cancelRequested => false
    | .server nonRetryable => nonRetryable
    | .nexusHandler typeName retryBehavior =>
      match retryBehavior with
      | .nonRetryable => true
      | .retryable => false
      | .unspecified => nexusHandlerTypeNonRetryable typeName
    | .timeout _ _ | .resetWorkflow _ | .nexusOperation _ _ _ _ _ _ | .absent => nested

def failureNonRetryable (failure : Failure) : Bool := failureNonRetryableLoop 0 failure

/-! ## The rule -/

/-- The layers of a chain, from the outermost failure to the last cause. -/
def Failure.layers : Failure → List Failure
  | ⟨message, source, stackTrace, encodedAttributes, cause, info⟩ =>
    ⟨message, source, stackTrace, encodedAttributes, cause, info⟩ ::
      match cause with
      | some cause => cause.layers
      | none => []

/-- What a layer decides without its cause. -/
def FailureInfo.decision : FailureInfo → Option Bool
  | .application _ nonRetryable _ _ _ => some nonRetryable
  | .canceled _ _ => some false
  | .terminated _ => some true
  | .activity _ _ _ _ _ retryState | .childWorkflow _ _ _ _ _ _ retryState =>
    match retryState with
    | .nonRetryableFailure | .maximumAttemptsReached => some true
    | .retryPolicyNotSet | .unspecified => none
    | .inProgress | .timeout | .internalServerError | .cancelRequested => some false
  | .server nonRetryable => some nonRetryable
  | .nexusHandler typeName retryBehavior =>
    match retryBehavior with
    | .nonRetryable => some true
    | .retryable => some false
    | .unspecified => some (nexusHandlerTypeNonRetryable typeName)
  | .timeout _ _ | .resetWorkflow _ | .nexusOperation _ _ _ _ _ _ | .absent => none

/-- The first of some layers that decides, decides; without one there is a retry. -/
def firstDecision (layers : List Failure) : Bool :=
  (layers.findSome? fun layer => layer.info.decision).getD false

theorem Failure.layers_eq (f : Failure) :
    f.layers = f :: (f.cause.elim [] Failure.layers) := by
  obtain ⟨message, source, stackTrace, encodedAttributes, cause, info⟩ := f
  rw [Failure.layers.eq_def]
  cases cause <;> rfl

theorem firstDecision_cons (f : Failure) (layers : List Failure) :
    firstDecision (f :: layers) = f.info.decision.getD (firstDecision layers) := by
  rw [firstDecision, List.findSome?_cons]
  cases f.info.decision <;> rfl

theorem failureNonRetryableLoop_eq (depth : Nat) (f : Failure) :
    failureNonRetryableLoop depth f = f.info.decision.getD
      (f.cause.elim false fun cause =>
        if depth < 128 then failureNonRetryableLoop (depth + 1) cause else false) := by
  obtain ⟨message, source, stackTrace, encodedAttributes, cause, info⟩ := f
  rw [failureNonRetryableLoop.eq_def]
  cases info with
  | activity _ _ _ _ _ retryState => cases retryState <;> cases cause <;> rfl
  | childWorkflow _ _ _ _ _ _ retryState => cases retryState <;> cases cause <;> rfl
  | nexusHandler _ retryBehavior => cases retryBehavior <;> rfl
  | _ => cases cause <;> rfl

/-- The recursion applies the rule to the first 129 layers. -/
theorem failureNonRetryableLoop_eq_firstDecision : (depth : Nat) → (f : Failure) → depth ≤ 128 →
    failureNonRetryableLoop depth f = firstDecision (f.layers.take (129 - depth))
  | depth, ⟨message, source, stackTrace, encodedAttributes, cause, info⟩, h => by
    obtain ⟨n, hn⟩ : ∃ n, 129 - depth = n + 1 := ⟨128 - depth, by omega⟩
    rw [failureNonRetryableLoop_eq, Failure.layers_eq, hn, List.take_succ_cons, firstDecision_cons]
    congr 1
    cases cause with
    | none => rw [Option.elim_none, Option.elim_none, List.take_nil]; rfl
    | some cause =>
      simp only [Option.elim_some]
      split_ifs with hdepth
      · rw [failureNonRetryableLoop_eq_firstDecision (depth + 1) cause (by omega),
          show 129 - (depth + 1) = n by omega]
      · rw [show n = 0 by omega, List.take_zero]
        rfl

theorem failureNonRetryable_eq_firstDecision (f : Failure) :
    failureNonRetryable f = firstDecision (f.layers.take 129) :=
  failureNonRetryableLoop_eq_firstDecision 0 f (by omega)

end OcamlTemporal.Protocol
