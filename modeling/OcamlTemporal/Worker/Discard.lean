import Mathlib.Logic.Function.Basic
import OcamlTemporal.Lib.Transitions

/-!
# OcamlTemporal.Worker.Discard

The deferred discard of what the adapters have copied (`Deferred_discard` of
`lib/runtime/native_worker_shutdown.ml`, used by `release_native`, `terminal_cleanup_once`, `run`
and `run_lanes` of `lib/public/native_worker.ml`). The thread that has released the native graph
must not wait for an adapter whose mutex abandoned code still holds. It raises `pending` and
tries once; every lane tries again when it has given its mutex back.

An attempt takes each of the two mutexes only if it is free, and clears `pending` only if it got
both.

* A thread is a lane, an attempt, or neither. Every access to the flag or to a mutex is a step
  of its own.
* `requested`, `discarded` and `raised` are not in the source.
-/

namespace OcamlTemporal.Worker.Discard

open Lib

inductive Side
  | workflow
  | activity
  deriving DecidableEq

/-- Where a thread is. `ok` says that the attempt has succeeded so far. -/
inductive Thread
  | gone
  | lane (side : Side) (holds : Bool)
  -- before it reads the flag in `retry`
  | checks
  | tries (side : Side) (ok : Bool)
  | discards (side : Side) (ok : Bool)
  -- before it clears the flag in `attempt`
  | done (ok : Bool)
  deriving DecidableEq

structure State where
  threads : Nat → Thread
  mutex : Side → Option Nat
  pending : Bool
  requested : Bool
  discarded : Side → Bool
  raised : Bool

namespace State

def initial : State where
  threads _ := .gone
  mutex _ := none
  pending := false
  requested := false
  discarded _ := false
  raised := false

def goto (s : State) (n : Nat) (t : Thread) : State :=
  { s with threads := Function.update s.threads n t }

def setMutex (s : State) (side : Side) (holder : Option Nat) : State :=
  { s with mutex := Function.update s.mutex side holder }

end State

/-- How `try_discard_adapters` goes on after one adapter. -/
def next (side : Side) (ok : Bool) : Thread :=
  match side with
  | .workflow => .tries .activity ok
  | .activity => .done ok

inductive Label
  /-- A lane begins; a lane takes and gives back the mutex of its adapter; it is over and tries
  again. -/
  | start (n : Nat) (side : Side)
  | lock (n : Nat)
  | unlock (n : Nat)
  | retry (n : Nat)
  | check (n : Nat)
  -- the release of the native graph has returned
  | request (n : Nat)
  | tryLock (n : Nat)
  | discard (n : Nat) (raises : Bool)
  | finish (n : Nat)

def step (s : State) : Label → Option State
  | .start n side =>
    match s.threads n with
    | .gone => some (s.goto n (.lane side false))
    | _ => none
  | .lock n =>
    match s.threads n with
    | .lane side false =>
      if (s.mutex side).isNone then some ((s.setMutex side (some n)).goto n (.lane side true))
      else none
    | _ => none
  | .unlock n =>
    match s.threads n with
    | .lane side true => some ((s.setMutex side none).goto n (.lane side false))
    | _ => none
  | .retry n =>
    match s.threads n with
    | .lane _ false => some (s.goto n .checks)
    | _ => none
  | .check n =>
    match s.threads n with
    | .checks => some (s.goto n (if s.pending then .tries .workflow true else .gone))
    | _ => none
  | .request n =>
    match s.threads n with
    | .gone => some ({ s with pending := true, requested := true }.goto n (.tries .workflow true))
    | _ => none
  | .tryLock n =>
    match s.threads n with
    | .tries side ok =>
      if (s.mutex side).isNone then some ((s.setMutex side (some n)).goto n (.discards side ok))
      else some (s.goto n (next side false))
    | _ => none
  | .discard n raises =>
    match s.threads n with
    | .discards side ok =>
      -- an exception leaves `try_discard_adapters` and counts as a failed attempt
      if raises then some ({ s with raised := true }.setMutex side none |>.goto n (.done false))
      else
        some ({ s with discarded := Function.update s.discarded side true }.setMutex side none
          |>.goto n (next side ok))
    | _ => none
  | .finish n =>
    match s.threads n with
    | .done ok => some ({ s with pending := s.pending && !ok }.goto n .gone)
    | _ => none

def system : Transitions State Label where
  start s := s = .initial
  step l s := step s l

end OcamlTemporal.Worker.Discard
