import OcamlTemporal.Activity.Request

/-!
# OcamlTemporal.Activity.AsyncHandle

The handle of an asynchronous activity (`lib/base/async_activity.ml`), as far as the activity
adapter uses it: the adapter creates it with the attempt, reserves it when the callback returns
it and activates it once the lease is registered. What an application does with an active handle
is not part of the adapter's lane.
-/

namespace OcamlTemporal.Activity

open OcamlTemporal.Protocol

/-! ## The handle -/

inductive Lifecycle
  | dormant
  | handoffPending
  | active
  | terminal
  | closed
  deriving DecidableEq, Repr

/-- The mutable state of a handle, as far as the adapter reads and writes it. The operation that
an application has reserved on an active handle is not part of it. -/
structure Handle where
  lifecycle : Lifecycle

def lifecycleError (message : String) : Error where
  category := .activity
  message := text message
  nonRetryable := true

namespace Handle

def create : Handle := ⟨.dormant⟩

def activate (h : Handle) : Except Error Handle :=
  match h.lifecycle with
  | .dormant | .handoffPending => .ok { h with lifecycle := .active }
  | .active | .terminal | .closed =>
    .error (lifecycleError "asynchronous activity handle is already activated")

/-- `own` says that the callback returned the handle of its own attempt. -/
def prepareHandoff (own : Bool) (h : Handle) : Except Error Handle :=
  if !own then
    .error (lifecycleError "asynchronous activity handle belongs to another activity attempt")
  else
    match h.lifecycle with
    | .dormant => .ok { h with lifecycle := .handoffPending }
    | .handoffPending =>
      .error (lifecycleError "asynchronous activity handle is already reserved for a handoff")
    | .active | .terminal | .closed =>
      .error (lifecycleError "asynchronous activity handle cannot be reserved for a handoff")

end Handle

end OcamlTemporal.Activity
