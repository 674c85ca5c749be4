import CounterMesh.Bytes.Word
import CounterMesh.Engine.Tree
import CounterMesh.Error

/-!
# Transactions

A transaction works on trees of its own: a read transaction on the state that
was committed when it began, a read-write transaction on a private copy of it.
A query answers from these trees; a mutation gives the changed transaction. A
mutation of a read transaction is refused before its tree is looked at, a
missing tree before its kind is.
-/

namespace CounterMesh

/-- Whether a transaction may change trees. -/
inductive Mode where
  | read
  | readWrite
  deriving DecidableEq, Repr

/-- An open transaction. -/
structure Transaction where
  mode : Mode
  trees : Database
  deriving DecidableEq

namespace Transaction

variable (t : Transaction)

/-- The tree with this name. -/
def tree (name : String) : Except Error Tree :=
  match t.trees.get? name with
  | some tree => .ok tree
  | none => .error (.engine (.treeNotFound name))

/-- The plain tree with this name. -/
def plain (name : String) : Except Error PlainTree := do
  match ← t.tree name with
  | .plain entries => return entries
  | .multi _ => .error (.engine (.treeKindMismatch name .plain .multi))

/-- The multi tree with this name. -/
def multi (name : String) : Except Error MultiTree := do
  match ← t.tree name with
  | .multi entries => return entries
  | .plain _ => .error (.engine (.treeKindMismatch name .multi .plain))

/-- Refuses a mutation of a read transaction. -/
def allow (mutation : Mutation) : Except Error Unit :=
  match t.mode with
  | .read => .error (.engine (.readOnly mutation))
  | .readWrite => .ok ()

/-- The transaction with a tree replaced. -/
def setTree (name : String) (tree : Tree) : Transaction :=
  { t with trees := t.trees.insert name tree }

def treeExists (name : String) : Bool := t.trees.contains name

/-- The number of keys of a tree of either kind. -/
def entryCount (name : String) : Except Error Nat := return (← t.tree name).size

def get (name : String) (key : Bytes) : Except Error (Option Bytes) :=
  return (← t.plain name).get? key

def scanFrom (name : String) (start : Bytes) : Except Error (List (Bytes × Bytes)) :=
  return (← t.plain name).entriesFrom start

def scanStarting (name : String) (stem : Bytes) : Except Error (List (Bytes × Bytes)) :=
  return (← t.plain name).entriesStarting stem

def last (name : String) : Except Error (Option (Bytes × Bytes)) := return (← t.plain name).last?

/-- The values under `key` that start with `stem`, in order. -/
def valuesStarting (name : String) (key stem : Bytes) : Except Error (List Bytes) :=
  return ((MultiTree.valuesOf (← t.multi name) key).entriesStarting stem).map (·.1)

def valueCount (name : String) (key : Bytes) : Except Error Nat :=
  return (MultiTree.valuesOf (← t.multi name) key).size

def keysFrom (name : String) (start : Bytes) : Except Error (List Bytes) :=
  return ((← t.multi name).entriesFrom start).map (·.1)

/-- The pairs of a multi tree whose keys are at least `start`, in order. -/
def pairsFrom (name : String) (start : Bytes) : Except Error (List (Bytes × Bytes)) :=
  return MultiTree.pairs ((← t.multi name).entriesFrom start)

/-- Makes sure that a tree of this kind exists. -/
def createTree (name : String) (kind : TreeKind) : Except Error Transaction := do
  t.allow .createTree
  match t.trees.get? name with
  | none => return t.setTree name (.empty kind)
  | some tree =>
    if tree.kind = kind then return t
    else .error (.engine (.treeKindMismatch name kind tree.kind))

def put (name : String) (key value : Bytes) : Except Error Transaction := do
  t.allow .put
  return t.setTree name (.plain ((← t.plain name).insert key value))

/-- Removes a key, and tells whether it was there. -/
def delete (name : String) (key : Bytes) : Except Error (Bool × Transaction) := do
  t.allow .delete
  let entries ← t.plain name
  return (entries.contains key, t.setTree name (.plain (entries.erase key)))

/-- Adds to the number under a key, where a missing number counts as zero. The sum wraps. -/
def increment (name : String) (key : Bytes) (delta : Int64) :
    Except Error (Int64 × Transaction) := do
  t.allow .increment
  let entries ← t.plain name
  let current ←
    match entries.get? key with
    | none => pure 0
    | some bytes =>
      match Word.little? bytes with
      | some current => pure current
      | none => .error (.engine (.notAnInteger name key bytes.length))
  let next := current + delta
  return (next, t.setTree name (.plain (entries.insert key (Word.little next))))

def multiAdd (name : String) (key value : Bytes) : Except Error Transaction := do
  t.allow .multiAdd
  return t.setTree name (.multi (MultiTree.add (← t.multi name) key value))

/-- Removes a value under a key, and tells whether it was there. -/
def multiDelete (name : String) (key value : Bytes) : Except Error (Bool × Transaction) := do
  t.allow .multiDelete
  let entries ← t.multi name
  return (MultiTree.holds entries key value,
    t.setTree name (.multi (MultiTree.remove entries key value)))

end Transaction

end CounterMesh
