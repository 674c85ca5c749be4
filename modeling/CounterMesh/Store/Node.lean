import CounterMesh.Broadcast
import CounterMesh.Clock
import CounterMesh.Config
import CounterMesh.Counter.Record
import CounterMesh.Engine
import CounterMesh.Signal

/-!
# Nodes and writers

A node is an opened store: what it knows besides the trees, which belong to its
engine. A writer is an open read-write transaction with the sequences as it sees
them and the changes it made so far; its node takes them over on commit.
-/

namespace CounterMesh

/-- Whether tombstones are purged in the background, and whose time drives the purge. -/
inductive Sweeper where
  | stopped
  /-- A thread of its own, which waits in real time. -/
  | thread
  /-- A task that runs whenever the intervals of its scheduler pass. -/
  | task
  deriving DecidableEq, Repr

/-- An opened store. -/
structure Node where
  config : Config
  serverId : ServerId
  clock : Clock
  signal : Signal
  /-- The sequences as they were committed last. -/
  lastEtag : Etag
  lastCounterId : CounterId
  /-- The time of the last commit, zero before the first one. -/
  lastWrite : UInt64 := 0
  changes : Broadcast Change := { capacity := 1024 }
  sweeper : Sweeper := .stopped
  /-- The path of the file that the store is saved to. -/
  file : Option String := none

/-- An open writer. -/
structure Writer where
  transaction : Transaction
  lastEtag : Etag
  lastCounterId : CounterId
  /-- The changes that were made, in their order. -/
  changes : List Change := []

namespace Node

variable (node : Node)

/-- The time of the last commit. -/
def lastWriteTime : Option Timestamp :=
  if node.lastWrite = 0 then none else some (.ofMillis node.lastWrite)

/-- The text of a node in diagnostics. -/
def debugText : String :=
  "CounterStorage \x7b name: " ++ Quoted.quote node.config.name ++ ", server_id: " ++
    node.serverId.text ++ ", last_etag: " ++ Decimal.ofWord node.lastEtag ++ " \x7d"

/-- A writer on an open transaction, which has to be a read-write one. -/
def writerOn (t : Transaction) : Except Error Writer :=
  match t.mode with
  | .read => .error (.counter .readOnlyWriter)
  | .readWrite => .ok ⟨t, node.lastEtag, node.lastCounterId, []⟩

/-- Opens a writer. -/
def openWriter (engine : Engine) : Except Error (Writer × Engine) := do
  let (t, engine) ← engine.begin .readWrite
  return (← node.writerOn t, engine)

/-- Publishes what a writer did: its trees, its sequences and, with `notify`, its changes. -/
def commit (engine : Engine) (writer : Writer) (notify : Bool) : Node × Engine :=
  let (now, clock) := node.clock.now
  let changes := if notify then node.changes.sendAll writer.changes else node.changes
  ({ node with
      clock, changes
      lastEtag := writer.lastEtag
      lastCounterId := writer.lastCounterId
      lastWrite := now },
    engine.commit writer.transaction)

end Node

end CounterMesh
