import OcamlTemporal.Lib.Transitions

/-!
# OcamlTemporal.Mailbox.SharedRuntime

One native runtime under several supervisors (`lib/sdk_supervisor/sdk_shared_runtime.ml`). A
supervisor holds a lease; `shutdown` closes the runtime when nobody holds one.

* A step is one critical section of the mutex, one `Atomic.exchange` of a lease's flag or one
  native call. `shutdown` keeps the mutex during the native close, so that it is two steps, and
  while the runtime is `closing` no other critical section begins.
* Any number of threads may release one lease at once. `Lease.released` is the flag, and
  `Lease.counting` is how many of them found it unset and have not counted the lease down yet.
  Nothing in a step says that there is at most one of them.
* `Lease.graphs` and `State.trace` are not in the source: the graphs that were attached through
  a lease and not closed (`Native_backend` of `sdk_supervisor.ml`), and what was called and
  returned.
-/

namespace OcamlTemporal.Mailbox.SharedRuntime

/-- Why `shutdown` failed: some supervisors still hold a lease, and the runtime stays as it is, or
the native close reported an error, and the runtime is closed nevertheless. -/
inductive ShutdownError (ε : Type)
  | stillAttached (attached : Int)
  | native (error : ε)
  deriving DecidableEq

/-- The native runtime: open, being closed by the thread that holds the mutex, or gone. -/
inductive Native
  | opened
  | closing
  | destroyed
  deriving DecidableEq

/-- A lease as its supervisor holds it. The source has the flag only; the threads between their
exchange and their critical section, and the open graphs, are counted for the proofs. -/
structure Lease where
  released : Bool
  counting : Nat
  graphs : Nat
  deriving DecidableEq

def Lease.fresh : Lease := ⟨false, 0, 0⟩

/-- `Atomic.exchange lease.released true`: a thread that finds the flag unset goes on to count
the lease down. -/
def Lease.exchange (lease : Lease) : Lease where
  released := true
  counting := if lease.released then lease.counting else lease.counting + 1
  graphs := lease.graphs

/-- What is seen of a runtime: whether `acquire` gave a lease, on what an attach was called, the
native close, and what `shutdown` returned. -/
inductive Event (ε : Type)
  | acquired (lease : Option Nat)
  | attach (lease : Nat) (released : Bool) (native : Native)
  | close
  | shutdown (result : Except (ShutdownError ε) Unit)

/-- The count and the flag of the record, the native runtime, and all leases that were ever given
out, in order. -/
structure State (ε : Type) where
  attached : Int
  closed : Bool
  native : Native
  leases : List Lease
  trace : List (Event ε)

/-- A step of some thread. The answers of native calls are part of the label, so that every run has
them as it likes. -/
inductive Label (ε : Type)
  | acquire
  | attach (lease : Nat) (answer : Except ε Unit)
  | runtimeClose (lease : Nat)
  | exchange (lease : Nat)
  | countDown (lease : Nat)
  | shutdown
  | closeReturned (answer : Except ε Unit)

variable {ε : Type}

namespace State

def make : State ε := ⟨0, false, .opened, [], []⟩

def note (s : State ε) (event : Event ε) : State ε := { s with trace := s.trace ++ [event] }

def setLease (s : State ε) (i : Nat) (lease : Lease) : State ε :=
  { s with leases := s.leases.set i lease }

/-- `acquire`: a lease is given out as long as `shutdown` has not begun to close the runtime. -/
def acquire (s : State ε) : State ε :=
  if s.closed then s.note (.acquired none)
  else
    { s with attached := s.attached + 1, leases := s.leases ++ [Lease.fresh] }.note
      (.acquired (some s.leases.length))

def attach (s : State ε) (i : Nat) (lease : Lease) (answer : Except ε Unit) : State ε :=
  let graphs := match answer with
    | .ok () => lease.graphs + 1
    | .error _ => lease.graphs
  (s.setLease i { lease with graphs := graphs }).note (.attach i lease.released s.native)

/-- The critical section of `shutdown` up to its native close. It is idempotent once the runtime is
closed, and refused, with the count in its error, while leases are out. -/
def shutdown (s : State ε) : State ε :=
  if s.closed then s.note (.shutdown (.ok ()))
  else if 0 < s.attached then s.note (.shutdown (.error (.stillAttached s.attached)))
  else { s with closed := true, native := .closing }.note .close

def closeReturned (s : State ε) (answer : Except ε Unit) : State ε :=
  { s with native := .destroyed }.note (.shutdown (answer.mapError .native))

end State

/-- One step; a critical section waits for the mutex. -/
def step : Label ε → State ε → Option (State ε)
  | .acquire, s => if s.native = .closing then none else some s.acquire
  | .attach i answer, s => s.leases[i]?.map fun lease => s.attach i lease answer
  | .runtimeClose i, s => s.leases[i]?.bind fun lease =>
      if lease.graphs = 0 then none
      else some (s.setLease i { lease with graphs := lease.graphs - 1 })
  | .exchange i, s => s.leases[i]?.map fun lease => s.setLease i lease.exchange
  | .countDown i, s => s.leases[i]?.bind fun lease =>
      if s.native = .closing ∨ lease.counting = 0 then none
      else
        some ({ s with attached := s.attached - 1 }.setLease i
          { lease with counting := lease.counting - 1 })
  | .shutdown, s => if s.native = .closing then none else some s.shutdown
  | .closeReturned answer, s => if s.native = .closing then some (s.closeReturned answer) else none

def system (ε : Type) : Lib.Transitions (State ε) (Label ε) where
  start s := s = .make
  step := step

end OcamlTemporal.Mailbox.SharedRuntime
