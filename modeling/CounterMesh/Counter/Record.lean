import CounterMesh.Counter.Slot
import CounterMesh.Json.Decode
import CounterMesh.Json.Printer

/-!
# Records about counters

What readers, subscribers and peers are told about counters, and how it is
written as JSON. A record is written as an object with its fields in a fixed
order.
-/

namespace CounterMesh

/-- A counter and its total. -/
structure Summary where
  group : String
  name : String
  total : Int64
  deriving DecidableEq

/-- A group and the number of live counters in it. -/
structure GroupSize where
  name : String
  count : Nat
  deriving DecidableEq

/-- One slot of a counter. -/
structure SlotValue where
  serverId : ServerId
  sign : Sign
  value : Int64
  deriving DecidableEq

/-- One entry of the change feed: the last write of a slot. The entry of a tombstone has the
reserved id as its server and the time of deletion as its value. -/
structure FeedEntry where
  group : String
  name : String
  serverId : ServerId
  sign : Sign
  value : Int64
  etag : Etag
  deriving DecidableEq

/-- What a write did to a counter. -/
inductive ChangeAction where
  /-- The counter was created, or written again after it was deleted. -/
  | add
  | increment
  | decrement
  | delete
  deriving DecidableEq, Repr

/-- A committed change; the server of a deletion is the reserved id. -/
structure Change where
  group : String
  name : String
  action : ChangeAction
  serverId : ServerId
  deriving DecidableEq

/-- A peer and the last etag of its feed that was applied here. -/
structure PeerEtag where
  serverId : ServerId
  etag : Etag
  deriving DecidableEq

/-- The name of an action in messages. -/
def ChangeAction.label : ChangeAction → String
  | .add => "add"
  | .increment => "increment"
  | .decrement => "decrement"
  | .delete => "delete"

/-- The name of an action in documents. -/
def ChangeAction.tag : ChangeAction → String
  | .add => "Add"
  | .increment => "Increment"
  | .decrement => "Decrement"
  | .delete => "Delete"

namespace Json

/-- The document of a signed word. -/
def signed (value : Int64) : Json := .int value.toInt

/-- The document of an unsigned word. -/
def word (value : UInt64) : Json := .nat value.toNat

def asServerId? (document : Json) : Option ServerId := document.asText?.bind ServerId.ofText?

def asSign? (document : Json) : Option Sign := do
  match ← document.asVariant? with
  | "+" => some .positive
  | "-" => some .negative
  | _ => none

end Json

def ServerId.toJson (id : ServerId) : Json := .text id.text

def Sign.toJson (sign : Sign) : Json := .text sign.text

def TreeKind.toJson (kind : TreeKind) : Json := .text kind.name

def TreeKind.ofJson? (document : Json) : Option TreeKind := do
  match ← document.asVariant? with
  | "Plain" => some .plain
  | "Multi" => some .multi
  | _ => none

namespace ChangeAction

def toJson (action : ChangeAction) : Json := .text action.tag

def ofJson? (document : Json) : Option ChangeAction := do
  match ← document.asVariant? with
  | "Add" => some .add
  | "Increment" => some .increment
  | "Decrement" => some .decrement
  | "Delete" => some .delete
  | _ => none

end ChangeAction

namespace Summary

def toJson (s : Summary) : Json :=
  .record [("group", .text s.group), ("name", .text s.name), ("total", .signed s.total)]

def ofJson? (document : Json) : Option Summary := do
  match ← document.asRecord? ["group", "name", "total"] with
  | [some group, some name, some total] =>
    return ⟨← group.asText?, ← name.asText?, ← total.asSigned?⟩
  | _ => none

end Summary

namespace GroupSize

def toJson (g : GroupSize) : Json := .record [("name", .text g.name), ("count", .nat g.count)]

def ofJson? (document : Json) : Option GroupSize := do
  match ← document.asRecord? ["name", "count"] with
  | [some name, some count] => return ⟨← name.asText?, ← count.asNatBelow? UInt64.size⟩
  | _ => none

end GroupSize

namespace SlotValue

/-- What a slot adds to the total of its counter. -/
def contribution (v : SlotValue) : Int64 :=
  match v.sign with
  | .positive => v.value
  | .negative => -v.value

def toJson (v : SlotValue) : Json :=
  .record [("server_id", v.serverId.toJson), ("sign", v.sign.toJson), ("value", .signed v.value)]

def ofJson? (document : Json) : Option SlotValue := do
  match ← document.asRecord? ["server_id", "sign", "value"] with
  | [some serverId, some sign, some value] =>
    return ⟨← serverId.asServerId?, ← sign.asSign?, ← value.asSigned?⟩
  | _ => none

end SlotValue

namespace FeedEntry

def toJson (e : FeedEntry) : Json :=
  .record
    [("group", .text e.group), ("name", .text e.name), ("server_id", e.serverId.toJson),
     ("sign", e.sign.toJson), ("value", .signed e.value), ("etag", .word e.etag)]

def ofJson? (document : Json) : Option FeedEntry := do
  match ← document.asRecord? ["group", "name", "server_id", "sign", "value", "etag"] with
  | [some group, some name, some serverId, some sign, some value, some etag] =>
    return ⟨← group.asText?, ← name.asText?, ← serverId.asServerId?, ← sign.asSign?,
      ← value.asSigned?, ← etag.asWord?⟩
  | _ => none

end FeedEntry

namespace Change

def toJson (c : Change) : Json :=
  .record
    [("group", .text c.group), ("name", .text c.name), ("action", c.action.toJson),
     ("server_id", c.serverId.toJson)]

def ofJson? (document : Json) : Option Change := do
  match ← document.asRecord? ["group", "name", "action", "server_id"] with
  | [some group, some name, some action, some serverId] =>
    return ⟨← group.asText?, ← name.asText?, ← ChangeAction.ofJson? action,
      ← serverId.asServerId?⟩
  | _ => none

end Change

namespace PeerEtag

def toJson (p : PeerEtag) : Json :=
  .record [("server_id", p.serverId.toJson), ("etag", .word p.etag)]

def ofJson? (document : Json) : Option PeerEtag := do
  match ← document.asRecord? ["server_id", "etag"] with
  | [some serverId, some etag] => return ⟨← serverId.asServerId?, ← etag.asWord?⟩
  | _ => none

end PeerEtag

end CounterMesh
