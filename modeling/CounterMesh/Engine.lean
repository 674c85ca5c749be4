import CounterMesh.Engine.Transaction

/-!
# The engine

An engine holds the last committed state of a database. Any number of read
transactions may be open, and one read-write transaction, which holds the write
lock until it is committed or dropped.
-/

namespace CounterMesh

/-- The committed state and the write lock. -/
structure Engine where
  committed : Database
  locked : Bool
  deriving DecidableEq

namespace Engine

/-- An engine over a committed state. -/
def ofDatabase (database : Database) : Engine := ⟨database, false⟩

/-- The engine without trees. -/
def empty : Engine := ofDatabase .empty

instance : Inhabited Engine := ⟨empty⟩

variable (engine : Engine)

/-- A read transaction on the committed state. -/
def snapshot : Transaction := ⟨.read, engine.committed⟩

/-- Opens a transaction; the write lock admits one read-write transaction at a time. -/
def begin (mode : Mode) : Except Error (Transaction × Engine) :=
  match mode with
  | .read => .ok (engine.snapshot, engine)
  | .readWrite =>
    if engine.locked then .error (.engine .busy)
    else .ok (⟨.readWrite, engine.committed⟩, { engine with locked := true })

/-- Publishes the trees of a read-write transaction and releases the lock. -/
def commit (t : Transaction) : Engine :=
  match t.mode with
  | .read => engine
  | .readWrite => ⟨t.trees, false⟩

/-- Ends a transaction without publishing anything. -/
def drop (t : Transaction) : Engine :=
  match t.mode with
  | .read => engine
  | .readWrite => { engine with locked := false }

end Engine

end CounterMesh
