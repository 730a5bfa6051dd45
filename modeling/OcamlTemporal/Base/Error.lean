/-!
# OcamlTemporal.Base.Error

Payloads and typed errors (`lib/base/payload.ml`, `lib/base/error.ml`). OCaml
strings are modelled by `String`, so text is always valid UTF-8 here. An error
keeps the fields of `Error.view`; the received-failure facts beside it (`origin`,
`last_heartbeat_details`) are read by nothing that is modelled.
-/

namespace OcamlTemporal

structure Payload where
  metadata : List (String × String)
  data : List UInt8
  deriving DecidableEq, Repr

def Payload.unitNull : Payload := ⟨[("encoding", "binary/null")], []⟩

inductive Category
  | activity
  | bridge
  | cancelled
  | childWorkflow
  | codec
  | defect
  | nexus
  | terminated
  | timeout
  | update
  | workflow
  deriving DecidableEq, Repr

/-- The lowercase name used in messages (`Error.kind`). -/
def Category.kind : Category → String
  | activity => "activity"
  | bridge => "bridge"
  | cancelled => "cancelled"
  | childWorkflow => "child_workflow"
  | codec => "codec"
  | defect => "defect"
  | nexus => "nexus"
  | terminated => "terminated"
  | timeout => "timeout"
  | update => "update"
  | workflow => "workflow"

structure Error where
  category : Category
  message : String
  nonRetryable : Bool := false
  details : List Payload := []
  errorType : Option String := none
  deriving DecidableEq, Repr

namespace Error

def codec (message : String) : Error := { category := .codec, message }

def defect (message : String) : Error :=
  { category := .defect, message, nonRetryable := true }

/-- The non-retryable error for a disagreement between Core and the runtime. -/
def bridge (message : String) : Error :=
  { category := .bridge, message, nonRetryable := true }

/-- Categories that describe incompatible code or SDK state. They fail the
workflow task rather than the run (`Execution.is_task_failure`). -/
def isTaskFailure (e : Error) : Bool :=
  match e.category with
  | .bridge | .codec | .defect => true
  | _ => false

/-- Makes an input-encoder failure of continue-as-new fail only the task
(`Workflow.continue_as_new_encode_error`). -/
def continueAsNewEncode (e : Error) : Error :=
  if e.isTaskFailure then e
  else
    { category := .codec
      details := e.details
      errorType := e.errorType
      message := "continue-as-new input encoding failed (" ++ e.category.kind ++ "): " ++
        e.message }

end Error

end OcamlTemporal
