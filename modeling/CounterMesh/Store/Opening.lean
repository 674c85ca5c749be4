import CounterMesh.Disk
import CounterMesh.Engine.Archive
import CounterMesh.Store

/-!
# Opening a store

A store opens on any engine: missing trees are created, an engine without a
format header gets one, and an engine without an id gets the requested one or a
fresh one. All of this is committed at once; an opening that fails changes
nothing.
-/

namespace CounterMesh

/-- How a store is to be opened. -/
structure Opening where
  config : Config := {}
  clock : Clock := {}
  signal : Signal := {}
  /-- The id that a store without an id is asked to take. -/
  requested : Option ServerId := none
  /-- The id that a store without an id takes when none is requested. -/
  fresh : ServerId
  /-- The file that the store is saved to. -/
  file : Option String := none

namespace Opening

/-- Creates the trees that are missing. -/
def createTrees (t : Transaction) : Except Error Transaction :=
  Layout.trees.foldlM (fun t tree => t.createTree tree.1 tree.2) t

/-- Writes the format header where there is none, and refuses any other header. -/
def checkFormat (t : Transaction) : Except Error Transaction := do
  match ← t.get Layout.metadata Layout.formatKey with
  | none => t.put Layout.metadata Layout.formatKey Layout.formatHeader
  | some found =>
    if found = Layout.formatHeader then return t
    else .error (.counter (.unsupportedFormat found Layout.formatHeader))

/-- The id of a store, which becomes `id` when there is none yet. -/
def identify (t : Transaction) (id : ServerId) : Except Error (ServerId × Transaction) := do
  match ← t.get Layout.metadata Layout.serverIdKey with
  | none => return (id, ← t.put Layout.metadata Layout.serverIdKey id.bytes)
  | some bytes =>
    match ServerId.ofBytes? bytes with
    | some stored => return (stored, t)
    | none => .error (.counter (.invalidWidth Layout.metadata 16 bytes.length))

variable (opening : Opening)

/-- Opens a store on an engine. -/
def start (engine : Engine) : Except Error Store := do
  opening.config.validate
  if opening.requested = some .nil then throw (.counter (.invalidArgument .reservedServerId))
  let (t, engine) ← engine.begin .readWrite
  let t ← createTrees t
  let t ← checkFormat t
  let (serverId, t) ← identify t (opening.requested.getD opening.fresh)
  let lastCounterId ← Index.lastCounterId t
  let lastEtag ← Index.lastEtag t
  return {
    node := {
      serverId, lastCounterId, lastEtag
      config := opening.config
      clock := opening.clock
      signal := opening.signal
      file := opening.file }
    engine := engine.commit t }

/-- Opens the store in a file, where a missing file stands for an empty store. The store is saved
to this file again. -/
def startFile [Monad m] [Files m] (path : String) : m (Except Error Store) := do
  let file ← Files.read path
  let database :=
    match file with
    | .contents bytes => Database.ofFile (some bytes)
    | .missing => Database.ofFile none
    | .unreadable => .error (.engine .fileAccess)
  return do ({ opening with file := some path } : Opening).start (.ofDatabase (← database))

end Opening

end CounterMesh
