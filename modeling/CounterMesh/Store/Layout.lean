import CounterMesh.Bytes
import CounterMesh.Engine.Kind

/-!
# Layout of a store

The trees of a store and the keys of its metadata.

* `metadata` holds the format header, the id of the node, both sequences and the
  replication document.
* `counters` holds the slots.
* `groupCounters` and `tombstonedGroupCounters` list the live and the deleted
  counters of a group.
* `counterNames` leads from a counter id back to its name and group.
* `tombstonesByDate` lists the tombstones by their time of deletion.
* `etagToKey` and `keyToEtag` tie every slot to the etag of its last write.
* `peerEtags` holds the cursor for every peer.
-/

namespace CounterMesh.Layout

def metadata : String := "metadata"
def counters : String := "counters"
def groupCounters : String := "group_counters"
def tombstonedGroupCounters : String := "tombstoned_group_counters"
def counterNames : String := "counter_names"
def tombstonesByDate : String := "tombstones_by_date"
def etagToKey : String := "etag_to_key"
def keyToEtag : String := "key_to_etag"
def peerEtags : String := "peer_etags"

/-- Every tree of a store with its kind, in the order in which they are created. -/
def trees : List (String × TreeKind) :=
  [(metadata, .plain), (counters, .plain), (groupCounters, .multi),
   (tombstonedGroupCounters, .multi), (counterNames, .plain), (tombstonesByDate, .multi),
   (etagToKey, .plain), (keyToEtag, .plain), (peerEtags, .plain)]

def serverIdKey : Bytes := Bytes.ofAscii "id"
def lastCounterIdKey : Bytes := Bytes.ofAscii "last_counter_id"
def lastEtagKey : Bytes := Bytes.ofAscii "last_etag"
def replicationKey : Bytes := Bytes.ofAscii "replication"
def formatKey : Bytes := Bytes.ofAscii "format"

/-- The format header of a store: a mark and the version of the layout. -/
def formatHeader : Bytes := Bytes.ofAscii "TLLY" ++ [1]

end CounterMesh.Layout
