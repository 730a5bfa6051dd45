import Mathlib
import OcamlTemporal.Bridge.CoreFailure
import OcamlTemporal.Protocol.Workflow

/-!
# OcamlTemporal.Bridge.Completions

The checks of a completion against its activation that the bridge makes before it converts the
completion for Core (`completion_to_core_for_activation_with_optional_namespace` of
`rust/core-bridge/src/workflow_protocol.rs`). Both are of the types of the protocol, whose documents
have the same shape on either side. A `BTreeSet` is a finite set.
-/

namespace OcamlTemporal.Bridge.Completions

open Protocol (Bytes)
open Inbound (CoreConversionError invalidCore)

/-- `matches!(activation.jobs.as_slice(), [ActivationJob::RemoveFromCache { .. }])`. -/
def isEviction : List Protocol.ActivationJob → Bool
  | [.removeFromCache _ _] => true
  | _ => false

def queryId? : Protocol.ActivationJob → Option Bytes
  | .queryWorkflow queryId _ _ _ => some queryId
  | _ => none

def isQueryResult : Protocol.CompletionCommand → Bool
  | .queryResult _ _ => true
  | _ => false

/-- The loop over the commands that answer a query activation. -/
def collectResultIds (queryIds resultIds : Finset Bytes) :
    List Protocol.CompletionCommand → Except CoreConversionError (Finset Bytes)
  | [] => .ok resultIds
  | .queryResult queryId _ :: rest =>
    if queryId ∉ queryIds ∨ queryId ∈ resultIds then
      .error (invalidCore "query completion identifier does not match its activation")
    else collectResultIds queryIds (insert queryId resultIds) rest
  | _ :: _ => .error (invalidCore "query activation completion may contain only query results")

/-- What comes before `completion_to_core_with_child_namespace`. -/
def checkForActivation (activation : Protocol.Activation) (completion : Protocol.Completion) :
    Except CoreConversionError Unit :=
  if activation.runId ≠ completion.runId then
    .error (invalidCore "completion run id does not match its activation")
  else if isEviction activation.jobs &&
      (!completion.commands.isEmpty || completion.taskFailure.isSome) then
    .error (invalidCore "cache eviction activation must have an empty completion")
  else
    let queryIds := (activation.jobs.filterMap queryId?).toFinset
    if queryIds = ∅ then
      if completion.commands.any isQueryResult then
        .error (invalidCore "query result command requires a query activation")
      else .ok ()
    else if completion.taskFailure.isSome then
      .error (invalidCore "query activation requires query results, not a task failure")
    else
      match collectResultIds queryIds ∅ completion.commands with
      | .error e => .error e
      | .ok resultIds =>
        if resultIds ≠ queryIds then
          .error (invalidCore "query activation must receive exactly one result per query")
        else .ok ()

end OcamlTemporal.Bridge.Completions
