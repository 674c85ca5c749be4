import CounterMesh.Store

/-!
# Figures about a store
-/

namespace CounterMesh

/-- The figures of a store at one moment. -/
structure Stats where
  name : String
  serverId : ServerId
  countersCount : Nat
  groupsCount : Nat
  tombstonesCount : Nat
  lastEtag : Etag
  lastCounterId : CounterId
  lastWrite : Option Timestamp

namespace Stats

def toJson (s : Stats) : Json :=
  .record
    [("name", .text s.name), ("server_id", s.serverId.toJson),
     ("counters_count", .nat s.countersCount), ("groups_count", .nat s.groupsCount),
     ("tombstones_count", .nat s.tombstonesCount), ("last_etag", .word s.lastEtag),
     ("last_counter_id", .word s.lastCounterId),
     ("last_write", (s.lastWrite.map fun time => Json.text time.zuluForm).getD .null)]

end Stats

/-- The figures of a store. -/
def Store.stats (store : Store) : Except Error Stats := do
  let t := store.engine.snapshot
  return {
    countersCount := ← Index.countersCount t
    groupsCount := ← Index.groupsCount t
    tombstonesCount := ← Index.tombstonesCount t
    name := store.node.config.name
    serverId := store.node.serverId
    lastEtag := store.node.lastEtag
    lastCounterId := store.node.lastCounterId
    lastWrite := store.node.lastWriteTime }

/-- The figures of the store at work. -/
def StoreM.stats : StoreM Stats := do ofExcept (← get).stats

end CounterMesh
