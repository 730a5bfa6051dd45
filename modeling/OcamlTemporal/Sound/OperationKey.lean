import OcamlTemporal.Activity.Request

/-!
# OcamlTemporal.Sound.OperationKey

**The key of an operation determines its request.** The key is a concatenation of
length-prefixed fields, with a count in front of every list, so it can be read
back: equal keys have the same tag and the same fields (`Operation.Alike`). The
typed request reads nothing of an operation beyond those fields: of a failure it
uses the category, the failure type, the message, the retry flag and the details,
each of which is a field of the key.
-/

namespace OcamlTemporal.Activity

open OcamlTemporal.Protocol
open OcamlTemporal.Lib (SelfDelimiting decimal decimal_injective netstring_selfDelimiting)

/-! ## Reading the key back -/

theorem addField_selfDelimiting : SelfDelimiting addField := netstring_selfDelimiting

/-- Fields with the decimal notations of two numbers. -/
theorem addField_decimal {n m : Nat} {x y : Bytes}
    (h : addField (decimal n) ++ x = addField (decimal m) ++ y) : n = m ∧ x = y := by
  obtain ⟨hdec, hxy⟩ := addField_selfDelimiting h
  exact ⟨decimal_injective hdec, hxy⟩

theorem addMetadata_selfDelimiting : SelfDelimiting addMetadata := by
  intro a b x y h
  simp only [addMetadata, List.append_assoc] at h
  obtain ⟨-, h⟩ := addField_selfDelimiting h
  obtain ⟨hkey, h⟩ := addField_selfDelimiting h
  obtain ⟨hvalue, hxy⟩ := addField_selfDelimiting h
  exact ⟨Prod.ext hkey hvalue, hxy⟩

theorem addPayload_selfDelimiting : SelfDelimiting addPayload := by
  intro p q x y h
  simp only [addPayload, List.append_assoc] at h
  obtain ⟨-, h⟩ := addField_selfDelimiting h
  obtain ⟨hcount, h⟩ := addField_decimal h
  obtain ⟨hmetadata, h⟩ := addMetadata_selfDelimiting.flatMap hcount h
  obtain ⟨-, h⟩ := addField_selfDelimiting h
  obtain ⟨-, h⟩ := addField_decimal h
  obtain ⟨hdata, hxy⟩ := addField_selfDelimiting h
  obtain ⟨_, _⟩ := p
  obtain ⟨_, _⟩ := q
  exact ⟨by simp_all, hxy⟩

theorem addPayloads_selfDelimiting : SelfDelimiting addPayloads := by
  intro ps qs x y h
  simp only [addPayloads, List.append_assoc] at h
  obtain ⟨-, h⟩ := addField_selfDelimiting h
  obtain ⟨hcount, h⟩ := addField_decimal h
  exact addPayload_selfDelimiting.flatMap hcount h

def Operation.tag : Operation → Bytes
  | complete _ => text "complete"
  | fail _ => text "fail"
  | cancel _ => text "cancel"
  | heartbeat _ => text "heartbeat"

def Operation.fields : Operation → Bytes
  | complete payload => addPayload payload
  | fail e =>
    addField e.kind ++ (addField e.applicationFailureType ++ (addField e.message ++
      (addField (if e.nonRetryable then text "1" else text "0") ++ addPayloads e.details)))
  | cancel payloads => addPayloads payloads
  | heartbeat payloads => addPayloads payloads

theorem operationKey_eq (op : Operation) : operationKey op = addField op.tag ++ op.fields := by
  cases op <;> simp [operationKey, Operation.tag, Operation.fields]

/-- The errors agree in all that is transmitted of them. -/
structure Error.Alike (e e' : Error) : Prop where
  kind : e.kind = e'.kind
  applicationFailureType : e.applicationFailureType = e'.applicationFailureType
  message : e.message = e'.message
  nonRetryable : e.nonRetryable = e'.nonRetryable
  details : e.details = e'.details

/-- The operations are of the same kind and agree in all that is transmitted. -/
def Operation.Alike : Operation → Operation → Prop
  | complete p, complete q => p = q
  | fail e, fail e' => e.Alike e'
  | cancel ps, cancel qs => ps = qs
  | heartbeat ps, heartbeat qs => ps = qs
  | _, _ => False

theorem Error.alike_of_fields_eq {e e' : Error}
    (h : (Operation.fail e).fields = (Operation.fail e').fields) : e.Alike e' := by
  simp only [Operation.fields] at h
  obtain ⟨hkind, h⟩ := addField_selfDelimiting h
  obtain ⟨htype, h⟩ := addField_selfDelimiting h
  obtain ⟨hmessage, h⟩ := addField_selfDelimiting h
  obtain ⟨hflag, h⟩ := addField_selfDelimiting h
  have hretry : e.nonRetryable = e'.nonRetryable := by
    revert hflag
    cases e.nonRetryable <;> cases e'.nonRetryable <;> decide
  exact ⟨hkind, htype, hmessage, hretry, addPayloads_selfDelimiting.injective h⟩

/-- Equal keys are keys of operations that transmit the same. -/
theorem Operation.alike_of_key_eq {op op' : Operation} (h : operationKey op = operationKey op') :
    op.Alike op' := by
  rw [operationKey_eq, operationKey_eq] at h
  obtain ⟨htag, hfields⟩ := addField_selfDelimiting h
  cases op with
  | complete p =>
    cases op' with
    | complete q => exact addPayload_selfDelimiting.injective hfields
    | _ => exact absurd htag (by dsimp only [Operation.tag]; decide)
  | fail e =>
    cases op' with
    | fail e' => exact Error.alike_of_fields_eq hfields
    | _ => exact absurd htag (by dsimp only [Operation.tag]; decide)
  | cancel ps =>
    cases op' with
    | cancel qs => exact addPayloads_selfDelimiting.injective hfields
    | _ => exact absurd htag (by dsimp only [Operation.tag]; decide)
  | heartbeat ps =>
    cases op' with
    | heartbeat qs => exact addPayloads_selfDelimiting.injective hfields
    | _ => exact absurd htag (by dsimp only [Operation.tag]; decide)

/-! ## The request -/

/-- A failure is made of the transmitted fields only. -/
theorem Error.Alike.failure_eq {e e' : Error} (h : e.Alike e') (path : Bytes) :
    failureOfApplicationError (applicationError path e) e =
      failureOfApplicationError (applicationError path e') e' := by
  simp only [failureOfApplicationError, applicationError, h.kind, h.message, h.details,
    h.applicationFailureType, h.nonRetryable]

theorem Operation.Alike.typedRequest_eq {op op' : Operation} (h : op.Alike op') (token : Bytes) :
    typedRequest token op = typedRequest token op' := by
  cases op with
  | complete p =>
    cases op' with
    | complete q => exact congrArg (typedRequest token ∘ Operation.complete) h
    | _ => exact h.elim
  | fail e =>
    cases op' with
    | fail e' => simp only [typedRequest, Error.Alike.failure_eq h]
    | _ => exact h.elim
  | cancel ps =>
    cases op' with
    | cancel qs => exact congrArg (typedRequest token ∘ Operation.cancel) h
    | _ => exact h.elim
  | heartbeat ps =>
    cases op' with
    | heartbeat qs => exact congrArg (typedRequest token ∘ Operation.heartbeat) h
    | _ => exact h.elim

/-- Operations with equal keys are prepared alike: the same bytes, or the same
refusal. -/
theorem prepareAsyncRequest_of_alike (enc : Encoders) {op op' : Operation} (h : op.Alike op')
    (token : Bytes) (heartbeatTimeout : Option Duration) :
    prepareAsyncRequest enc token heartbeatTimeout op =
      prepareAsyncRequest enc token heartbeatTimeout op' := by
  simp only [prepareAsyncRequest, h.typedRequest_eq]

/-- **The key of an operation determines its request.** Whatever the encoders do,
two operations with equal keys are prepared to the same bytes, or refused with
the same diagnostic. -/
theorem operationKey_determines_request (enc : Encoders) (op op' : Operation)
    (hkey : operationKey op = operationKey op') (token : Bytes)
    (heartbeatTimeout : Option Duration) :
    prepareAsyncRequest enc token heartbeatTimeout op =
      prepareAsyncRequest enc token heartbeatTimeout op' :=
  prepareAsyncRequest_of_alike enc (Operation.alike_of_key_eq hkey) token heartbeatTimeout

/-- Two errors of different structure that are the same on the wire: one names
its type, the other falls back to the category. -/
def typedError : Error where
  category := .timeout
  message := text "late"
  details := [⟨[(text "encoding", text "binary/null")], []⟩]
  errorType := some (text "timeout")

def untypedError : Error := { typedError with errorType := none }

/-- An encoder that writes the token in front of the failure type. -/
def failureTypeEncoder : Encoders where
  completion completion :=
    match completion.result with
    | .failed { info := .application typeName _ _ _ _, .. } =>
      .ok (completion.taskToken ++ typeName)
    | _ => .error (makeError (text "$") false (text "unsupported") (text "not a failure"))
  asyncHeartbeat heartbeat := .ok heartbeat.heartbeat.taskToken

theorem operationKey_determines_request_untyped :
    typedError ≠ untypedError ∧
      operationKey (.fail typedError) = operationKey (.fail untypedError) ∧
      prepareAsyncRequest failureTypeEncoder [1] none (.fail typedError) =
        .ok (.completion (1 :: text "timeout")) ∧
      prepareAsyncRequest failureTypeEncoder [1] none (.fail typedError) =
        prepareAsyncRequest failureTypeEncoder [1] none (.fail untypedError) := by
  refine ⟨fun h => ?_, by decide, by rfl,
    operationKey_determines_request failureTypeEncoder (.fail typedError) (.fail untypedError)
      (by decide) [1] none⟩
  exact absurd (congrArg Error.errorType h) nofun

end OcamlTemporal.Activity
