import CounterMesh.Store.Layout
import CounterMesh.Store.Node

/-!
# Sessions

A session is a writer at work on its node. The steps of an operation run one
after another on the session; a step that fails ends the operation and leaves
what the steps before it did.
-/

namespace CounterMesh

/-- A node and its open writer. -/
structure Session where
  node : Node
  writer : Writer

/-- A part of an operation on a session. -/
abbrev Write := EStateM Error Session

namespace Write

/-- Asks the trees of the writer. -/
def query (ask : Transaction → Except Error α) : Write α := do
  match ask (← get).writer.transaction with
  | .ok answer => return answer
  | .error e => throw e

/-- Changes the trees of the writer. -/
def mutate (change : Transaction → Except Error Transaction) : Write Unit := do
  let transaction ← query change
  modify fun s => { s with writer := { s.writer with transaction } }

/-- Changes the trees of the writer by a removal, whether or not there was something to remove. -/
def remove (change : Transaction → Except Error (Bool × Transaction)) : Write Unit :=
  mutate fun t => return (← change t).2

/-- The id of the node. -/
def serverId : Write ServerId := return (← get).node.serverId

/-- The settings of the node. -/
def config : Write Config := return (← get).node.config

/-- Reads the clock of the node. -/
def now : Write UInt64 := do
  let s ← get
  let (now, clock) := s.node.clock.now
  set { s with node := { s.node with clock } }
  return now

/-- Signals the node's scheduler that there is something new. -/
def signal : Write Unit :=
  modify fun s => { s with node := { s.node with signal := s.node.signal.update } }

/-- Records a change for the subscribers. -/
def record (change : Change) : Write Unit :=
  modify fun s => { s with writer := { s.writer with changes := s.writer.changes ++ [change] } }

/-- Takes the next etag. The sequence moves on before it is stored. -/
def nextEtag : Write Etag := do
  let etag := (← get).writer.lastEtag + 1
  modify fun s => { s with writer := { s.writer with lastEtag := etag } }
  mutate fun t => t.put Layout.metadata Layout.lastEtagKey (Word.big etag)
  return etag

/-- Takes the next counter id. The sequence moves on before it is stored. -/
def nextCounterId : Write CounterId := do
  let counterId := (← get).writer.lastCounterId + 1
  modify fun s => { s with writer := { s.writer with lastCounterId := counterId } }
  mutate fun t => t.put Layout.metadata Layout.lastCounterIdKey (Word.big counterId)
  return counterId

end Write

end CounterMesh
