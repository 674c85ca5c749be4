import CounterMesh.Counter.NameEntry
import CounterMesh.Counter.Record
import CounterMesh.Engine.Transaction
import CounterMesh.Replication.Document
import CounterMesh.Store.Layout

/-!
# Look-ups in the index trees

What an open transaction says about counters. Readers and writers share these
look-ups; none of them changes anything. An entry that cannot be read is a
failure of the look-up that came across it.
-/

namespace CounterMesh.Index

variable (t : Transaction)

/-- The id of a name in a group, in one of the two group indexes. Every entry that starts with the
name is looked at, since a longer name may sort in front of it. -/
def find? (tree group name : String) : Except Error (Option CounterId) := do
  let name := Bytes.ofText name
  return (← t.valuesStarting tree (Bytes.ofText group) name).findSome? (GroupEntry.idFor? name)

/-- The id of a live counter. -/
def liveId? (group name : String) : Except Error (Option CounterId) :=
  find? t Layout.groupCounters group name

/-- The id of a deleted counter that was not purged yet. -/
def deletedId? (group name : String) : Except Error (Option CounterId) :=
  find? t Layout.tombstonedGroupCounters group name

/-- The id of a counter, live or deleted. -/
def anyId? (group name : String) : Except Error (Option CounterId) := do
  match ← liveId? t group name with
  | some counterId => return some counterId
  | none => deletedId? t group name

/-- The id of a live counter, which has to exist. -/
def liveId (group name : String) : Except Error CounterId := do
  match ← liveId? t group name with
  | some counterId => return counterId
  | none => .error (.counter (.notFound group name))

/-- Name and group of a counter id. -/
def nameOf? (counterId : CounterId) : Except Error (Option (String × String)) := do
  match ← t.scanStarting Layout.counterNames (Word.big counterId) with
  | [] => return none
  | (key, group) :: _ =>
    let (_, name) ← NameKey.split Layout.counterNames key
    let name ← Stored.text Layout.counterNames name
    let group ← Stored.text Layout.counterNames group
    return some (name, group)

/-- The value of a slot. -/
def slotValue? (key : Bytes) : Except Error (Option Int64) := do
  match ← t.get Layout.counters key with
  | none => return none
  | some bytes => return some (← Stored.value Layout.counters bytes)

/-- The slots of a counter that belong to nodes, read one after another in key order. -/
def nodeSlots : List (Bytes × Bytes) → Except Error (List SlotValue)
  | [] => return []
  | (key, bytes) :: rest => do
    let key ← SlotKey.decode Layout.counters key
    match key.owner with
    | .tombstone => nodeSlots rest
    | .node serverId =>
      let value ← Stored.value Layout.counters bytes
      return ⟨serverId, key.sign, value⟩ :: (← nodeSlots rest)

/-- Every slot of a counter but its tombstone, in key order. -/
def slots (counterId : CounterId) : Except Error (List SlotValue) := do
  nodeSlots (← t.scanStarting Layout.counters (Word.big counterId))

/-- The positive slots of a counter less the negative ones; sums wrap. -/
def total (counterId : CounterId) : Except Error Int64 :=
  return ((← slots t counterId).map SlotValue.contribution).sum

/-- The total of a live counter. -/
def totalOf (group name : String) : Except Error Int64 := do
  total t (← liveId t group name)

/-- The slots of a counter, live or deleted. -/
def slotsOf (group name : String) : Except Error (List SlotValue) := do
  match ← anyId? t group name with
  | some counterId => slots t counterId
  | none => .error (.counter (.notFound group name))

/-- The value of a slot of a counter, live or deleted. -/
def valueOf? (group name : String) (owner : Owner) (sign : Sign) :
    Except Error (Option Int64) := do
  match ← anyId? t group name with
  | none => return none
  | some counterId => slotValue? t (SlotKey.bytes ⟨counterId, owner, sign⟩)

/-- The etag of a slot of a counter, live or deleted. -/
def etagOf? (group name : String) (owner : Owner) (sign : Sign) :
    Except Error (Option Etag) := do
  match ← anyId? t group name with
  | none => return none
  | some counterId =>
    match ← t.get Layout.keyToEtag (SlotKey.bytes ⟨counterId, owner, sign⟩) with
    | none => return none
    | some bytes => return some (← Stored.word Layout.keyToEtag bytes)

/-- The feed entry of an etag and the key of its slot. -/
def feedEntry (etagKey slotKey : Bytes) : Except Error FeedEntry := do
  let etag ← Stored.word Layout.etagToKey etagKey
  let slot ← SlotKey.decode Layout.etagToKey slotKey
  let value ←
    match ← slotValue? t slotKey with
    | some value => pure value
    | none => .error (.counter (.inconsistentIndex Layout.etagToKey (.missingSlot etag)))
  match ← nameOf? t slot.counterId with
  | some (name, group) => return ⟨group, name, slot.owner.server, slot.sign, value, etag⟩
  | none =>
    .error (.counter (.inconsistentIndex Layout.counterNames (.namelessCounter slot.counterId)))

/-- The index entries with etags greater than `etag`. -/
def etagsAfter (etag : Etag) : Except Error (List (Bytes × Bytes)) :=
  match Word.ofNat? (etag.toNat + 1) with
  | some start => t.scanFrom Layout.etagToKey (Word.big start)
  | none => return []

/-- The last writes of all slots with etags greater than `since`, in the order of their etags. An
entry that cannot be read does not end the feed. -/
def feed (since : Etag) : Except Error (List (Except Error FeedEntry)) :=
  return (← etagsAfter t since).map fun (etagKey, slotKey) => feedEntry t etagKey slotKey

/-- The first `max` entries of the feed after `since`, all of which have to be readable. -/
def changes (since : Etag) (max : Nat) : Except Error (List FeedEntry) := do
  ((← etagsAfter t since).take max).mapM fun (etagKey, slotKey) => feedEntry t etagKey slotKey

/-- The greatest etag in the index. -/
def lastIndexedEtag : Except Error Etag := do
  match ← t.last Layout.etagToKey with
  | none => return 0
  | some (key, _) => Stored.word Layout.etagToKey key

/-- A number in the metadata, where a missing one counts as zero. -/
def metadataWord (key : Bytes) : Except Error UInt64 := do
  match ← t.get Layout.metadata key with
  | none => return 0
  | some bytes => Stored.word Layout.metadata bytes

/-- The counter id that was allocated last. -/
def lastCounterId : Except Error CounterId := metadataWord t Layout.lastCounterIdKey

/-- The etag that was assigned last. -/
def lastEtag : Except Error Etag := do
  let recorded ← metadataWord t Layout.lastEtagKey
  let indexed ← lastIndexedEtag t
  return max recorded indexed

/-- The last etag of the feed of a peer that was applied here. -/
def lastEtagFor (serverId : ServerId) : Except Error Etag := do
  match ← t.get Layout.peerEtags serverId.bytes with
  | none => return 0
  | some bytes => Stored.word Layout.peerEtags bytes

/-- The cursors of all peers. -/
def peerEtags : Except Error (List PeerEtag) := do
  (← t.scanFrom Layout.peerEtags []).mapM fun (key, value) => do
    match ServerId.ofBytes? key with
    | none => .error (.counter (.invalidWidth Layout.peerEtags 16 key.length))
    | some serverId => return ⟨serverId, ← Stored.word Layout.peerEtags value⟩

/-- The replication document of the store. -/
def replicationDocument? : Except Error (Option ReplicationDocument) := do
  match ← t.get Layout.metadata Layout.replicationKey with
  | none => return none
  | some bytes =>
    match ReplicationDocument.ofBytes? bytes with
    | some document => return some document
    | none => .error (.counter .invalidDocument)

/-- How many values a multi tree holds under these keys. -/
def countUnder (tree : String) : List Bytes → Except Error Nat
  | [] => return 0
  | key :: keys => return (← t.valueCount tree key) + (← countUnder tree keys)

/-- How many values a multi tree holds under all its keys. -/
def memberCount (tree : String) : Except Error Nat := do countUnder t tree (← t.keysFrom tree [])

/-- The number of live counters. -/
def countersCount : Except Error Nat := memberCount t Layout.groupCounters

/-- The number of deleted counters that were not purged yet. -/
def tombstonesCount : Except Error Nat := memberCount t Layout.tombstonedGroupCounters

/-- The number of groups with live counters. -/
def groupsCount : Except Error Nat := t.entryCount Layout.groupCounters

/-- The groups with live counters, in byte order. -/
def groups : Except Error (List GroupSize) := do
  (← t.keysFrom Layout.groupCounters []).mapM fun group => do
    let count ← t.valueCount Layout.groupCounters group
    return ⟨← Stored.text Layout.groupCounters group, count⟩

/-- A page of the live counters of one group. -/
def groupPage (group : Bytes) (skip take : Nat) : Except Error (List Summary) := do
  let groupName ← Stored.text Layout.groupCounters group
  let entries ← t.valuesStarting Layout.groupCounters group []
  ((entries.drop skip).take take).mapM fun entry => do
    let (name, counterId) ← GroupEntry.split Layout.groupCounters entry
    let name ← Stored.text Layout.groupCounters name
    return ⟨groupName, name, ← total t counterId⟩

/-- A page of the live counters of several groups. A group that is skipped as a whole is passed
over by its count, and groups behind the page are not looked at. -/
def groupsPage : List Bytes → (skip take : Nat) → Except Error (List Summary)
  | [], _, _ => return []
  | group :: rest, skip, take => do
    let count ← t.valueCount Layout.groupCounters group
    if count ≤ skip then groupsPage rest (skip - count) take
    else
      let page ← groupPage t group skip take
      if take ≤ page.length then return page
      else return page ++ (← groupsPage rest 0 (take - page.length))

/-- A page of the live counters with their totals: of one group, or of all groups in order when
`group` is empty. -/
def summary (group : String) (skip take : Nat) : Except Error (List Summary) :=
  if take = 0 then return []
  else if group.isEmpty then do
    groupsPage t (← t.keysFrom Layout.groupCounters []) skip take
  else groupPage t (Bytes.ofText group) skip take

end CounterMesh.Index
