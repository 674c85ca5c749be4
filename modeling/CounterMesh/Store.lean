import CounterMesh.Store.Write

/-!
# Stores

A store is a node together with its engine. Its operations run one after another
on the store; one that fails leaves what the operations before it committed, and
the clock where it was read last.
-/

namespace CounterMesh

/-- An opened store. -/
structure Store where
  node : Node
  engine : Engine

/-- A part of an operation on a store. -/
abbrev StoreM := EStateM Error Store

namespace StoreM

/-- An answer that may be a failure. -/
def ofExcept : Except Error α → StoreM α
  | .ok answer => return answer
  | .error e => throw e

/-- Asks the committed trees. -/
def query (ask : Transaction → Except Error α) : StoreM α := do
  ofExcept (ask (← get).engine.snapshot)

/-- The settings of the node. -/
def config : StoreM Config := return (← get).node.config

/-- Changes the node. -/
def modifyNode (change : Node → Node) : StoreM Unit :=
  modify fun store => { store with node := change store.node }

/-- Reads the clock of the node. -/
def now : StoreM UInt64 := do
  let (now, clock) := (← get).node.clock.now
  modifyNode fun node => { node with clock }
  return now

/-- Runs an operation in a writer of its own. What it did is published if it succeeds and its
answer is to be kept; otherwise the writer is dropped. -/
def transact (notify : Bool) (operation : Write α) (keep : α → Bool := fun _ => true) :
    StoreM α := do
  let store ← get
  let (writer, engine) ← ofExcept (store.node.openWriter store.engine)
  match operation.run ⟨store.node, writer⟩ with
  | .ok answer ⟨node, writer⟩ =>
    if keep answer then
      let (node, engine) := node.commit engine writer notify
      set (⟨node, engine⟩ : Store)
    else set (⟨node, engine.drop writer.transaction⟩ : Store)
    return answer
  | .error e ⟨node, writer⟩ =>
    set (⟨node, engine.drop writer.transaction⟩ : Store)
    throw e

end StoreM

end CounterMesh
