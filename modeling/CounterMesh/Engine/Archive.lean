import CounterMesh.Engine
import CounterMesh.Json.Buffered
import CounterMesh.Json.Parser
import CounterMesh.Json.Printer

/-!
# Database files

A committed state is saved as an indented JSON document: the format, and under
their names the trees with their kinds and entries, keys and values in
hexadecimal. Loading refuses a document of another shape, then another format,
then text that is not hexadecimal; a key without values is passed over, whatever
its text.
-/

namespace CounterMesh

namespace TreeKind

/-- The tag of a kind in a file. -/
def tag : TreeKind → String
  | .plain => "plain"
  | .multi => "multi"

/-- The kind with this tag. -/
def ofTag? (tag : String) : Option TreeKind :=
  if tag = "plain" then some .plain else if tag = "multi" then some .multi else none

end TreeKind

namespace Tree

/-- The document of the entries of a tree. -/
def entriesJson : Tree → Json
  | .plain entries =>
    .record (entries.toList.map fun (key, value) => (Hex.encode key, .text (Hex.encode value)))
  | .multi entries =>
    .record (entries.toList.map fun (key, values) =>
      (Hex.encode key, .arr (values.keys.map fun value => .text (Hex.encode value))))

/-- The document of a tree. -/
def toJson (tree : Tree) : Json :=
  .record [("kind", .text tree.kind.tag), ("entries", tree.entriesJson)]

end Tree

namespace Database

/-- The document of a database. -/
def toJson (database : Database) : Json :=
  .record
    [("_v", .nat fileFormat),
     ("trees", .record (database.toList.map fun (name, tree) => (name, tree.toJson)))]

/-- The text of the file of a database. -/
def save (database : Database) : String := (toJson database).pretty

end Database

/-- A tree as a file lists it, before its keys and values are decoded. -/
inductive FileTree where
  | plain (entries : OrdMap String String)
  | multi (entries : OrdMap String (List String))

namespace FileTree

/-- The entries of a tree of a known kind. -/
def ofEntries? (kind : TreeKind) (entries : Json) : Option FileTree :=
  match kind with
  | .plain => (entries.asEntries? Json.asText?).map fun entries => .plain (.ofList entries)
  | .multi =>
    (entries.asEntries? (Json.asList? Json.asText?)).map fun entries => .multi (.ofList entries)

/-- How deep the lists inside a tree of a file may be nested. -/
def maxDepth : Nat := 124

/-- The tree of a document: a record whose kind may stand anywhere, or a list that starts with the
kind. -/
def ofJson? : Json → Option FileTree
  | .obj fields => do
    let fields ← fields.mapM fun (key, value) => (·, value) <$> Json.textOf? key
    let kind ← TreeKind.ofTag? (← (← (← Json.field? fields "kind")).asText?)
    let entries ← (← Json.field? fields "entries")
    if fields.all fun field => field.1 == "kind" || field.2.isBuffered maxDepth then
      ofEntries? kind entries
    else none
  | .arr [kind, entries] => do
    let kind ← TreeKind.ofTag? (← kind.asText?)
    if entries.isBuffered maxDepth then ofEntries? kind entries else none
  | _ => none

/-- The bytes of a hexadecimal text in the tree `name`. -/
def decodeHex (name text : String) : Except Error Bytes :=
  match Hex.decode text with
  | .ok bytes => .ok bytes
  | .error fault => .error (.engine (.corruptedState name fault))

/-- The contents of a tree, read in the order of the texts of its keys. -/
def decode (name : String) : FileTree → Except Error Tree
  | .plain entries => do
    let entries ← entries.toList.mapM fun (key, value) => do
      let key ← decodeHex name key
      return (key, ← decodeHex name value)
    return .plain (.ofList entries)
  | .multi entries => do
    let entries ← entries.toList.mapM fun (key, values) => do
      let values ← values.mapM (decodeHex name)
      if values.isEmpty then return none
      else return some (← decodeHex name key, OrdMap.ofList (values.map fun value => (value, ())))
    return .multi (.ofList (entries.filterMap id))

end FileTree

namespace Database

/-- The format and the trees that a document lists. -/
def ofJson? (document : Json) : Option (Nat × OrdMap String FileTree) := do
  match ← document.asRecord? ["_v", "trees"] with
  | [format, trees] =>
    let format ← (format.map (Json.asNatBelow? 256)).getD (some 0)
    let trees ← (trees.map (Json.asEntries? FileTree.ofJson?)).getD (some [])
    return (format, .ofList trees)
  | _ => none

/-- The database in the text of a file. -/
def load (text : String) : Except Error Database :=
  match (Json.parse? text).bind ofJson? with
  | none => .error (.engine .malformedFile)
  | some (format, trees) =>
    if format = fileFormat then do
      let trees ← trees.toList.mapM fun (name, tree) => return (name, ← tree.decode name)
      return .ofList trees
    else .error (.engine (.unsupportedFormat format))

/-- The database in a file; a missing file stands for a database without trees. -/
def ofFile : Option Bytes → Except Error Database
  | none => .ok .empty
  | some bytes =>
    match Bytes.text? bytes with
    | some text => load text
    | none => .error (.engine .fileAccess)

end Database

end CounterMesh
