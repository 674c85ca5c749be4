import CounterMesh.Engine.Transaction

/-!
# Operations on trees

The operations of a transaction as data, with their answers. Performing one
gives its answer and the transaction after it; one that fails changes nothing.
-/

namespace CounterMesh

/-- One operation of a transaction. -/
inductive TreeOp where
  | mode
  | treeExists (tree : String)
  | createTree (tree : String) (kind : TreeKind)
  | entryCount (tree : String)
  | get (tree : String) (key : Bytes)
  | put (tree : String) (key value : Bytes)
  | delete (tree : String) (key : Bytes)
  | increment (tree : String) (key : Bytes) (delta : Int64)
  | scanFrom (tree : String) (start : Bytes)
  | scanStarting (tree : String) (stem : Bytes)
  | last (tree : String)
  | multiAdd (tree : String) (key value : Bytes)
  | multiDelete (tree : String) (key value : Bytes)
  | valuesStarting (tree : String) (key stem : Bytes)
  | valueCount (tree : String) (key : Bytes)
  | keysFrom (tree : String) (start : Bytes)
  | pairsFrom (tree : String) (start : Bytes)
  deriving DecidableEq, Repr

/-- What an operation answers. -/
inductive TreeAnswer where
  | done
  | mode (mode : Mode)
  | truth (value : Bool)
  | count (n : Nat)
  | number (value : Int64)
  | value? (value : Option Bytes)
  | pair? (pair : Option (Bytes × Bytes))
  | values (values : List Bytes)
  | pairs (pairs : List (Bytes × Bytes))
  deriving DecidableEq, Repr

namespace Transaction

/-- The answer of an operation with the transaction that it leaves. -/
def answer (t : Transaction) : TreeOp → Except Error (TreeAnswer × Transaction)
  | .mode => .ok (.mode t.mode, t)
  | .treeExists tree => .ok (.truth (t.treeExists tree), t)
  | .createTree tree kind => return (.done, ← t.createTree tree kind)
  | .entryCount tree => return (.count (← t.entryCount tree), t)
  | .get tree key => return (.value? (← t.get tree key), t)
  | .put tree key value => return (.done, ← t.put tree key value)
  | .delete tree key => do
    let (removed, t) ← t.delete tree key
    return (.truth removed, t)
  | .increment tree key delta => do
    let (next, t) ← t.increment tree key delta
    return (.number next, t)
  | .scanFrom tree start => return (.pairs (← t.scanFrom tree start), t)
  | .scanStarting tree stem => return (.pairs (← t.scanStarting tree stem), t)
  | .last tree => return (.pair? (← t.last tree), t)
  | .multiAdd tree key value => return (.done, ← t.multiAdd tree key value)
  | .multiDelete tree key value => do
    let (removed, t) ← t.multiDelete tree key value
    return (.truth removed, t)
  | .valuesStarting tree key stem => return (.values (← t.valuesStarting tree key stem), t)
  | .valueCount tree key => return (.count (← t.valueCount tree key), t)
  | .keysFrom tree start => return (.values (← t.keysFrom tree start), t)
  | .pairsFrom tree start => return (.pairs (← t.pairsFrom tree start), t)

/-- Performs an operation; a failure leaves the transaction as it is. -/
def perform (t : Transaction) (op : TreeOp) : Except Error TreeAnswer × Transaction :=
  match t.answer op with
  | .ok (answer, t) => (.ok answer, t)
  | .error e => (.error e, t)

end Transaction

end CounterMesh
