import CounterMesh.Store.Merge

/-!
# Operations of a writer

Local writes add a delta to the slots of the node, replicated writes replace a
slot of another node, and a deletion brings a counter to zero before it leaves a
tombstone. A purge removes tombstones that are older than the retention,
together with everything that is left of their counters.
-/

namespace CounterMesh

namespace Write

/-- Refuses empty names; an empty group stands for all groups in listings. -/
def checkNames (group name : String) : Write Unit := do
  if group.isEmpty then throw (.counter (.invalidArgument .emptyGroup))
  if name.isEmpty then throw (.counter (.invalidArgument .emptyName))

/-- What a write did to a counter, by whether it was live and the direction of the write. -/
def actionOf (existed : Bool) (sign : Sign) : ChangeAction :=
  if existed then
    match sign with
    | .positive => .increment
    | .negative => .decrement
  else .add

/-- Adds a delta to the slots of this node. -/
def store (group name : String) (delta : Int64) : Write ChangeAction := do
  checkNames group name
  if delta = Int64.minValue then throw (.counter (.deltaOutOfRange delta))
  let sign := Sign.ofDelta delta
  let serverId ← serverId
  let existed ← merge group name (.node serverId) sign (.increment delta.abs)
  let action := actionOf existed sign
  record ⟨group, name, action, serverId⟩
  return action

/-- Takes over the value of a slot from another node. The reserved server id stands for a deletion,
whose time is the value. -/
def storeReplicated (group name : String) (serverId : ServerId) (sign : Sign) (value : Int64) :
    Write ChangeAction := do
  checkNames group name
  let action ←
    match Owner.ofServer serverId with
    | .tombstone => do
      let _ ← merge group name .tombstone .positive (.tombstone value)
      pure .delete
    | .node serverId => do
      let existed ← merge group name (.node serverId) sign (.overwrite value)
      pure (actionOf existed (Sign.ofDelta value))
  record ⟨group, name, action, serverId⟩
  return action

/-- Refuses a counter that is not live. -/
def checkLive (group name : String) : Write Unit := do
  let _ ← query fun t => Index.liveId t group name

/-- Brings a live counter to zero by a delta of this node, which is returned. -/
def resetLive (group name : String) : Write Int64 := do
  let total ← query fun t => Index.totalOf t group name
  if total = 0 then return 0
  if total = Int64.minValue then throw (.counter (.deltaOutOfRange total))
  let _ ← store group name (-total)
  return -total

/-- Brings a counter to zero, and returns the delta that did it. -/
def reset (group name : String) : Write Int64 := do
  checkLive group name
  resetLive group name

/-- Deletes a counter. The least total has no negation, and is brought to zero by two deltas. -/
def delete (group name : String) : Write Unit := do
  checkLive group name
  if (← query fun t => Index.totalOf t group name) = Int64.minValue then
    let _ ← store group name Int64.maxValue
    let _ ← store group name 1
  else
    let _ ← resetLive group name
  let ticks := ticksOf (← now)
  let _ ← merge group name .tombstone .positive (.tombstone ticks)
  record ⟨group, name, .delete, .nil⟩

/-- Removes a name of a counter from both indexes that lead to it. -/
def forgetName (counterId : CounterId) (key group : Bytes) : Write Unit := do
  let (_, name) ← query fun _ => NameKey.split Layout.counterNames key
  remove fun t =>
    t.multiDelete Layout.tombstonedGroupCounters group (GroupEntry.bytes name counterId)
  remove fun t => t.delete Layout.counterNames key

/-- Removes a slot with its etag. -/
def forgetSlot (key : Bytes) : Write Unit := do
  removeEtag key
  remove fun t => t.delete Layout.counters key

/-- Removes every trace of a counter: its names, its slots and their etags. -/
def forget (counterId : CounterId) : Write Unit := do
  let names ← query fun t => t.scanStarting Layout.counterNames (Word.big counterId)
  names.forM fun (key, group) => forgetName counterId key group
  let slots ← query fun t => t.scanStarting Layout.counters (Word.big counterId)
  slots.forM fun (key, _) => forgetSlot key

/-- The first pairs of dates and tombstones, at most `limit`, up to a date after `cutoff`. -/
def expired (cutoff : Int64) :
    (limit : Nat) → List (Bytes × Bytes) → Except Error (List (Bytes × Bytes))
  | 0, _ => return []
  | _, [] => return []
  | limit + 1, (date, key) :: rest => do
    if (← Stored.ticks Layout.tombstonesByDate date) > cutoff then return []
    else return (date, key) :: (← expired cutoff limit rest)

/-- Removes the counter of a tombstone and takes the tombstone out of the list by date. -/
def purgeTombstone (date key : Bytes) : Write Unit := do
  let slot ← query fun _ => SlotKey.decode Layout.tombstonesByDate key
  forget slot.counterId
  remove fun t => t.multiDelete Layout.tombstonesByDate date key

/-- Removes one batch of tombstones that are older than the retention, and tells whether there were
any. -/
def purgeBatch : Write Bool := do
  let config ← config
  let cutoff := ticksOf (← now) - config.retentionTicks
  let batch ← query fun t => do
    expired cutoff config.deletedTombstonesInBatch.toNat (← t.pairsFrom Layout.tombstonesByDate [])
  batch.forM fun (date, key) => purgeTombstone date key
  return !batch.isEmpty

/-- Records the last etag of the feed of a peer that was applied here. -/
def recordPeerEtag (serverId : ServerId) (etag : Etag) : Write Unit :=
  mutate fun t => t.put Layout.peerEtags serverId.bytes (Word.big etag)

/-- Replaces the replication document. -/
def updateReplication (document : ReplicationDocument) : Write Unit := do
  mutate fun t =>
    t.put Layout.metadata Layout.replicationKey (Bytes.ofText document.toJson.render)
  signal

end Write

end CounterMesh
