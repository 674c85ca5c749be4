import CounterMesh.Counter.Record
import CounterMesh.Json.Parser

/-!
# Replication messages

A message carries a batch of the change feed of one node to another.
-/

namespace CounterMesh

/-- A batch of a change feed. -/
structure Message where
  /-- The node whose feed it is. -/
  serverId : ServerId
  /-- The entries in the order of the feed. -/
  entries : List FeedEntry
  deriving DecidableEq

namespace Message

/-- The greatest etag of a batch. -/
def lastEtag (m : Message) : Option Etag := (m.entries.map (·.etag)).max?

def isEmpty (m : Message) : Bool := m.entries.isEmpty

def toJson (m : Message) : Json :=
  .record [("server_id", m.serverId.toJson), ("counters", .arr (m.entries.map FeedEntry.toJson))]

def ofJson? (document : Json) : Option Message := do
  match ← document.asRecord? ["server_id", "counters"] with
  | [some serverId, some entries] =>
    return ⟨← serverId.asServerId?, ← entries.asList? FeedEntry.ofJson?⟩
  | _ => none

/-- The message in a text. -/
def parse? (text : String) : Option Message := (Json.parse? text).bind ofJson?

end Message

end CounterMesh
