import Mathlib
import OcamlTemporal.Mock.Service

/-!
# OcamlTemporal.Mock.Visibility

Listing the runs of a mock service page by page: `mock_client_list_visibility` of
`lib/public/backend.ml` behind the checks of `list_visibility` of `lib/public/client.ml`.

* `int_of_string_opt` is the library's, a parameter of which only the reading of plain decimals is
  known.
* `String.compare` compares bytes as unsigned numbers.
* The deadline of the call is left out; a call without one has none to check.
-/

namespace OcamlTemporal.Mock

open OcamlTemporal.Protocol (Bytes text validUtf8)
open OcamlTemporal.Lib (decimal colon)

inductive Status
  | running
  | completed
  | continuedAsNew
  | canceled
  | terminated
  | failed
  | timedOut
  deriving DecidableEq

structure VisibilityExecution where
  workflowId : Bytes
  runId : Bytes
  workflowType : Bytes
  taskQueue : Bytes
  status : Status
  deriving DecidableEq

structure VisibilityPage where
  executions : List VisibilityExecution
  nextPageToken : Option Bytes
  deriving DecidableEq

structure VisibilityRequest where
  query : Bytes
  pageSize : Int
  nextPageToken : Option Bytes

inductive TextFault
  -- "must not be empty"
  | empty
  -- "exceeds the protocol (string) safety limit"
  | oversized
  -- "must be valid UTF-8"
  | malformed
  -- "must not contain NUL"
  | nul
  deriving DecidableEq

inductive ListFault
  -- "client is shut down"
  | shutDown
  -- "visibility page_size must be between 1 and 1000"
  | pageSize
  | query (fault : TextFault)
  -- "the deterministic mock only supports an empty visibility query"
  | queryUnsupported
  | pageToken (fault : TextFault)
  -- "invalid mock visibility page token"
  | invalidToken
  deriving DecidableEq

/-- `int_of_string_opt`. -/
structure IntReader where
  read : Bytes → Option Int
  reads : ∀ n : Nat, n < 2 ^ 62 → read (decimal n) = some (n : Int)

def maxTextBytes : Nat := 65536

def validateName (value : Bytes) : Except TextFault Unit :=
  if value = [] then .error .empty
  else if value.length > maxTextBytes then .error .oversized
  else if !validUtf8 value then .error .malformed
  else if value.contains 0 then .error .nul
  else .ok ()

def validateText (value : Bytes) : Except TextFault Unit :=
  if value.length > maxTextBytes then .error .oversized
  else if value.contains 0 then .error .nul
  else if !validUtf8 value then .error .malformed
  else .ok ()

def tokenPrefix : Bytes := text "mock-visibility-v2:"

def pageToken (workflowId runId : Bytes) : Bytes :=
  tokenPrefix ++ decimal workflowId.length ++ colon :: (workflowId ++ runId)

def readToken (reader : IntReader) (token : Bytes) : Option (Bytes × Bytes) :=
  if tokenPrefix.isPrefixOf token ∧ token.length > tokenPrefix.length then
    match (token.drop tokenPrefix.length).span (· ≠ colon) with
    | (_, []) => none
    | (digits, _ :: remaining) =>
      match reader.read digits with
      | some length =>
        if 0 < length ∧ length < remaining.length then
          some (remaining.take length.toNat, remaining.drop length.toNat)
        else none
      | none => none
  else none

def Terminal.status : Terminal → Status
  | .pending => .running
  | .completed | .completedWithSuccessor _ => .completed
  | .continuedAsNew _ => .continuedAsNew
  | .cancelled => .canceled
  | .terminated => .terminated
  | .failed _ _ => .failed
  | .timedOut _ _ => .timedOut

def orderKey (workflowId runId : Bytes) : List Nat ×ₗ List Nat :=
  toLex (workflowId.map UInt8.toNat, runId.map UInt8.toNat)

def VisibilityExecution.key (row : VisibilityExecution) : List Nat ×ₗ List Nat :=
  orderKey row.workflowId row.runId

def takePage : Nat → Option VisibilityExecution → List VisibilityExecution →
    List VisibilityExecution → VisibilityPage
  | _, _, acc, [] => ⟨acc.reverse, none⟩
  | 0, last, acc, _ :: _ => ⟨acc.reverse, last.map fun row => pageToken row.workflowId row.runId⟩
  | count + 1, _, acc, row :: rest => takePage count (some row) (row :: acc) rest

namespace Service

variable {R : Type}

def row (s : Service R) (entry : (Bytes × Bytes) × Nat) : Option VisibilityExecution :=
  (s.runs[entry.2]?).map fun execution =>
    ⟨entry.1.1, execution.runId, execution.workflowType, execution.taskQueue,
      execution.terminal.status⟩

def rows (s : Service R) : List VisibilityExecution :=
  (s.history.filterMap s.row).insertionSort fun a b => a.key ≤ b.key

def pageAfter (s : Service R) (pageSize : Nat) (cursor : Option (Bytes × Bytes)) : VisibilityPage :=
  let remaining := match cursor with
    | none => s.rows
    | some (workflowId, runId) => s.rows.filter fun row => orderKey workflowId runId < row.key
  takePage pageSize none [] remaining

def mockClientListVisibility (reader : IntReader) (closed : Bool) (request : VisibilityRequest)
    (s : Service R) : Except ListFault VisibilityPage :=
  if request.pageSize < 1 ∨ request.pageSize > 1000 then .error .pageSize
  else if request.query.length > maxTextBytes then .error (.query .oversized)
  else if request.query.contains 0 then .error (.query .nul)
  else if request.query ≠ [] then .error .queryUnsupported
  else
    match request.nextPageToken with
    | none =>
      if closed then .error .shutDown else .ok (s.pageAfter request.pageSize.toNat none)
    | some token =>
      match readToken reader token with
      | none => .error .invalidToken
      | some cursor =>
        if closed then .error .shutDown
        else if (s.history.lookup cursor).isNone then .error .invalidToken
        else .ok (s.pageAfter request.pageSize.toNat (some cursor))

def listVisibility (reader : IntReader) (closed : Bool) (query : Bytes) (pageSize : Int)
    (token : Option Bytes) (s : Service R) : Except ListFault VisibilityPage :=
  if closed then .error .shutDown
  else if pageSize < 1 ∨ pageSize > 1000 then .error .pageSize
  else
    match validateText query with
    | .error fault => .error (.query fault)
    | .ok () =>
      match token with
      | none => s.mockClientListVisibility reader closed ⟨query, pageSize, none⟩
      | some token =>
        match validateName token with
        | .error fault => .error (.pageToken fault)
        | .ok () => s.mockClientListVisibility reader closed ⟨query, pageSize, some token⟩

end Service

end OcamlTemporal.Mock
