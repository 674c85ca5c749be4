import CounterMesh.Store.Index
import CounterMesh.Store.Session

/-!
# Merging a write into a store

Every write of a slot runs through `merge`: it finds or allocates the counter
id, lists the counter among the live or the deleted ones, writes the slot and
gives it a fresh etag. A write to a slot of a node revives a deleted counter;
the write of a tombstone deletes it.
-/

namespace CounterMesh

/-- How a slot is written. -/
inductive SlotWrite where
  /-- Adds to the value of the slot. -/
  | increment (magnitude : Int64)
  /-- Replaces the value of the slot. -/
  | overwrite (value : Int64)
  /-- Writes a tombstone with its time of deletion, and lists it by that time. -/
  | tombstone (ticks : Int64)
  deriving DecidableEq, Repr

namespace Write

/-- Takes a slot out of both etag indexes. -/
def removeEtag (key : Bytes) : Write Unit := do
  match ← query fun t => t.get Layout.keyToEtag key with
  | none => return ()
  | some etag =>
    remove fun t => t.delete Layout.etagToKey etag
    remove fun t => t.delete Layout.keyToEtag key

/-- Gives a slot a fresh etag in place of its old one. -/
def reassignEtag (key : Bytes) : Write Unit := do
  match ← query fun t => t.get Layout.keyToEtag key with
  | none => pure ()
  | some previous => remove fun t => t.delete Layout.etagToKey previous
  let etag ← nextEtag
  mutate fun t => t.put Layout.etagToKey (Word.big etag) key
  mutate fun t => t.put Layout.keyToEtag key (Word.big etag)

/-- Takes a tombstone out of the list by date. -/
def removeDate (ticks : Int64) (key : Bytes) : Write Unit :=
  remove fun t => t.multiDelete Layout.tombstonesByDate (Word.ordered ticks) key

/-- Removes the tombstone of a counter, its date and its etag. -/
def removeTombstone (counterId : CounterId) : Write Unit := do
  let key := (SlotKey.tombstone counterId).bytes
  match ← query fun t => Index.slotValue? t key with
  | none => return ()
  | some ticks =>
    removeDate ticks key
    remove fun t => t.delete Layout.counters key
    removeEtag key

/-- Lists a counter among the deleted ones for a tombstone, among the live ones otherwise. -/
def updateGroups (group name : String) (counterId : CounterId) (owner : Owner) : Write Unit := do
  let group := Bytes.ofText group
  let name := Bytes.ofText name
  let entry := GroupEntry.bytes name counterId
  if owner.isTombstone then
    remove fun t => t.multiDelete Layout.groupCounters group entry
    mutate fun t => t.multiAdd Layout.tombstonedGroupCounters group entry
  else
    mutate fun t => t.multiAdd Layout.groupCounters group entry
    remove fun t => t.multiDelete Layout.tombstonedGroupCounters group entry
  mutate fun t => t.put Layout.counterNames (NameKey.bytes counterId name) group
  if !owner.isTombstone then removeTombstone counterId

/-- Writes the value of a slot. -/
def writeSlot (key : Bytes) : SlotWrite → Write Unit
  | .increment magnitude =>
    mutate fun t => return (← t.increment Layout.counters key magnitude).2
  | .overwrite value => mutate fun t => t.put Layout.counters key (Word.little value)
  | .tombstone ticks => do
    match ← query fun t => Index.slotValue? t key with
    | none => pure ()
    | some previous => removeDate previous key
    mutate fun t => t.put Layout.counters key (Word.little ticks)
    mutate fun t => t.multiAdd Layout.tombstonesByDate (Word.ordered ticks) key

/-- The id of a counter and whether it is live; an id is allocated when there is none. -/
def resolve (group name : String) : Write (CounterId × Bool) := do
  match ← query fun t => Index.liveId? t group name with
  | some counterId => return (counterId, true)
  | none =>
    match ← query fun t => Index.deletedId? t group name with
    | some counterId => return (counterId, false)
    | none => return (← nextCounterId, false)

/-- Writes a slot of a counter, and tells whether the counter was live before. -/
def merge (group name : String) (owner : Owner) (sign : Sign) (write : SlotWrite) :
    Write Bool := do
  let (counterId, existed) ← resolve group name
  updateGroups group name counterId owner
  let key := SlotKey.bytes ⟨counterId, owner, sign⟩
  writeSlot key write
  reassignEtag key
  signal
  return existed

end Write

end CounterMesh
