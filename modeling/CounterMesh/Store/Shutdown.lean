import CounterMesh.Disk
import CounterMesh.Engine.Archive
import CounterMesh.Store

/-!
# Saving and closing a store

A store is saved to its file as it was committed last. A shutdown stops the
sweeper, closes the replication signal and saves the store; each of these steps
is taken even when one before it failed.
-/

namespace CounterMesh.Store

variable {m : Type → Type} [Monad m] [Files m] (store : Store)

/-- Saves the store to its file, if it has one. -/
def flush : m (Except Error Unit) := do
  match store.node.file with
  | none => return .ok ()
  | some path =>
    if ← Files.write path (Bytes.ofText store.engine.committed.save) then return .ok ()
    else return .error (.engine .fileAccess)

/-- The failures among the outcomes of several steps, reported together. -/
def shutdownOutcome (name : String) (outcomes : List (Except Error Unit)) : Except Error Unit :=
  let failures := outcomes.filterMap fun
    | .ok _ => none
    | .error e => some e
  if failures.isEmpty then .ok () else .error (.shutdown name failures)

/-- Closes the store. -/
def shutdown : m (Except Error Unit × Store) := do
  let (closed, signal) := store.node.signal.close
  let store := { store with node := { store.node with signal, sweeper := .stopped } }
  let flushed ← store.flush
  return (shutdownOutcome store.node.config.name [closed, flushed], store)

end CounterMesh.Store
