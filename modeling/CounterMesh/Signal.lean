import CounterMesh.Error

/-!
# Replication signals

A store tells its replication scheduler that there is something new. A counting
signal remembers how often that happened until the count is taken; the other
schedulers do not listen, and one of them cannot be closed.
-/

namespace CounterMesh

/-- How a scheduler takes signals. -/
inductive Listener where
  /-- Updates are counted, and closing is remembered. -/
  | counting
  | silent
  /-- Closing fails. -/
  | broken
  deriving DecidableEq, Repr

/-- The signal of a store to its scheduler. -/
structure Signal where
  listener : Listener := .counting
  pending : UInt64 := 0
  closed : Bool := false
  deriving DecidableEq, Repr, Inhabited

namespace Signal

/-- Tells that there is something new. -/
def update (signal : Signal) : Signal :=
  match signal.listener with
  | .counting => { signal with pending := signal.pending + 1 }
  | _ => signal

/-- Releases the scheduler. -/
def close (signal : Signal) : Except Error Unit × Signal :=
  match signal.listener with
  | .counting => (.ok (), { signal with closed := true })
  | .silent => (.ok (), signal)
  | .broken => (.error .schedulerGone, signal)

/-- Takes the count of updates. -/
def take (signal : Signal) : UInt64 × Signal := (signal.pending, { signal with pending := 0 })

/-- Whether a waiting scheduler goes on without a further signal. -/
def ready (signal : Signal) : Bool := signal.pending > 0 || signal.closed

end Signal

end CounterMesh
