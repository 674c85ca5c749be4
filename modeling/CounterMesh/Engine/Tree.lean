import CounterMesh.Bytes
import CounterMesh.Engine.Kind
import CounterMesh.OrdMap

/-!
# Trees

The named trees of a database. Scans run in byte order: from a key on, or over
the keys that start with given bytes, which lie side by side.
-/

namespace CounterMesh

namespace OrdMap

variable {α : Type u}

/-- The entries whose keys start with `stem`, in order. -/
def entriesStarting (m : OrdMap Bytes α) (stem : Bytes) : List (Bytes × α) :=
  (m.entriesFrom stem).takeWhile fun entry => stem.isPrefixOf entry.1

end OrdMap

/-- A tree with one value under a key. -/
abbrev PlainTree := OrdMap Bytes Bytes

/-- A tree with an ordered set of values under a key. -/
abbrev MultiTree := OrdMap Bytes (OrdSet Bytes)

namespace MultiTree

/-- The values under a key. -/
def valuesOf (tree : MultiTree) (key : Bytes) : OrdSet Bytes := (tree.get? key).getD .empty

/-- Adds a value under a key. -/
def add (tree : MultiTree) (key value : Bytes) : MultiTree :=
  tree.insert key ((valuesOf tree key).insert value ())

/-- Removes a value under a key, and the key with its last value. -/
def remove (tree : MultiTree) (key value : Bytes) : MultiTree :=
  match tree.get? key with
  | none => tree
  | some values =>
    let rest := values.erase value
    if rest.isEmpty then tree.erase key else tree.insert key rest

/-- Whether a value stands under a key. -/
def holds (tree : MultiTree) (key value : Bytes) : Bool := (valuesOf tree key).contains value

/-- Every key with each of its values, in order. -/
def pairs (entries : List (Bytes × OrdSet Bytes)) : List (Bytes × Bytes) :=
  entries.flatMap fun (key, values) => values.keys.map fun value => (key, value)

/-- No key is left without values. -/
def Dense (tree : MultiTree) : Prop := ∀ entry ∈ tree.toList, entry.2.isEmpty = false

end MultiTree

/-- The contents of a tree. -/
inductive Tree where
  | plain (entries : PlainTree)
  | multi (entries : MultiTree)
  deriving DecidableEq

namespace Tree

/-- The empty tree of a kind. -/
def empty : TreeKind → Tree
  | .plain => .plain .empty
  | .multi => .multi .empty

def kind : Tree → TreeKind
  | .plain _ => .plain
  | .multi _ => .multi

/-- The number of keys. -/
def size : Tree → Nat
  | .plain entries => entries.size
  | .multi entries => entries.size

@[simp] theorem kind_empty (kind : TreeKind) : (empty kind).kind = kind := by cases kind <;> rfl

end Tree

/-- The named trees of a store. -/
abbrev Database := OrdMap String Tree

end CounterMesh
