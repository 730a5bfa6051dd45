import OcamlTemporal.Protocol.Workflow

/-!
# OcamlTemporal.Protocol.ClientRequests

The requests of a client that `rust/core-bridge/src/client_protocol.rs` compares with each
other: starts and waits.
-/

namespace OcamlTemporal.Protocol

structure MetadataField where
  key : Bytes
  value : Payload
  deriving DecidableEq, Repr

/-- What a start does when the workflow ID has an open run. -/
inductive IdConflictPolicy
  | fail
  | useExisting
  | terminateExisting
  deriving DecidableEq, Repr

structure StartWorkflowRequest where
  requestId : Bytes
  «namespace» : Bytes
  workflowId : Bytes
  workflowType : Bytes
  taskQueue : Bytes
  input : List Payload
  memo : List MetadataField
  searchAttributes : List MetadataField
  idConflictPolicy : IdConflictPolicy
  idReusePolicy : IdReusePolicy
  executionTimeoutMs : Option UInt64
  runTimeoutMs : Option UInt64
  taskTimeoutMs : Option UInt64
  retryPolicy : Option RetryPolicy
  rpcTimeoutMs : Option UInt64
  deriving DecidableEq, Repr

/-- Equality of every field but the caller's RPC timeout, which bounds one call and not the
workflow. -/
def sameStartRequest (left right : StartWorkflowRequest) : Bool :=
  { left with rpcTimeoutMs := none } = { right with rpcTimeoutMs := none }

/-- An empty `runId` observes the current run. -/
structure WaitWorkflowRequest where
  «namespace» : Bytes
  workflowId : Bytes
  runId : Bytes
  deriving DecidableEq, Repr

end OcamlTemporal.Protocol
