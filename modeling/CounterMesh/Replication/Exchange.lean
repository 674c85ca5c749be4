import CounterMesh.Replication.Apply
import CounterMesh.Store

/-!
# Exchanges between stores

In an exchange a target pulls all changes of a source that are not behind its
cursor, in batches of its own batch size. Every batch is committed before the
next one is read. When the exchange has run longer than the timeout, no further
batch is started, and the cursor keeps the rest for the next exchange.
-/

namespace CounterMesh

/-- The committed trees of the source of an exchange. -/
inductive Origin where
  /-- The source has an engine of its own. -/
  | apart (database : Database)
  /-- Source and target are nodes on one engine. -/
  | shared

namespace Origin

/-- What the source has committed, by the engine of the target. -/
def committed (engine : Engine) : Origin → Database
  | .apart database => database
  | .shared => engine.committed

end Origin

namespace StoreM

variable (source : ServerId) (origin : Origin)

/-- The next batch for this store: the changes of the source that are not behind the cursor. -/
def nextMessage : StoreM Message := do
  let since ← query fun t => Index.lastEtagFor t source
  let batchSize := (← config).replicationBatchSize.toNat
  let t : Transaction := ⟨.read, origin.committed (← get).engine⟩
  return ⟨source, ← ofExcept (Index.changes t since batchSize)⟩

/-- Pulls batches until there are no more changes or the time is over, and counts the entries that
were merged. -/
def pullBatches (started : UInt64) : (fuel : Nat) → StoreM Nat
  | 0 => return 0
  | fuel + 1 => do
    if (← now).toNat - started.toNat > (← config).timeoutMillis then return 0
    let message ← nextMessage source origin
    if message.isEmpty then return 0
    let outcome ← transact true (Write.applyMessage message)
    return outcome.applied + (← pullBatches started fuel)

/-- Pulls all changes of a source. Every batch moves the cursor on and takes time, which bounds
their number. -/
def replicate : StoreM Nat := do
  let started ← now
  let t : Transaction := ⟨.read, origin.committed (← get).engine⟩
  let entries := (t.entryCount Layout.etagToKey).toOption.getD 0
  pullBatches source origin started (entries + (← config).timeoutMillis + 2)

end StoreM

end CounterMesh
