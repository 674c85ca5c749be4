import CounterMesh.Counter.Stored
import CounterMesh.Counter.Sign
import CounterMesh.ServerId

/-!
# Slots

A counter has a slot for every node and sign that wrote to it, and a tombstone
while it is deleted. The key of a slot is the counter id, the id of the owner
and the sign, so that the slots of a counter lie side by side, the tombstone in
front. The tombstone is owned by the reserved id and holds the time of deletion.
-/

namespace CounterMesh

/-- Who a slot belongs to. -/
inductive Owner where
  | node (id : ServerId)
  | tombstone
  deriving DecidableEq

namespace Owner

/-- The owner that a server id stands for; the reserved id stands for the tombstone. -/
def ofServer (id : ServerId) : Owner := if id.isNil then .tombstone else .node id

/-- The server id in the keys of an owner's slots. -/
def server : Owner → ServerId
  | .node id => id
  | .tombstone => .nil

def isTombstone : Owner → Bool
  | .node _ => false
  | .tombstone => true

@[simp] theorem server_ofServer (id : ServerId) : (ofServer id).server = id := by
  unfold ofServer
  split
  · next h => exact ((ServerId.isNil_iff id).1 h).symm
  · rfl

@[simp] theorem isTombstone_ofServer (id : ServerId) : (ofServer id).isTombstone = id.isNil := by
  unfold ofServer
  split
  · next h => simp [isTombstone, h]
  · next h => simp [isTombstone, Bool.eq_false_iff.2 h]

end Owner

/-- The place of a slot. -/
structure SlotKey where
  counterId : CounterId
  owner : Owner
  sign : Sign
  deriving DecidableEq

namespace SlotKey

/-- The width of a key. -/
def width : Nat := 25

/-- The key of a slot. -/
def bytes (key : SlotKey) : Bytes :=
  Word.big key.counterId ++ key.owner.server.bytes ++ [key.sign.byte]

/-- The place of the tombstone of a counter. -/
def tombstone (counterId : CounterId) : SlotKey := ⟨counterId, .tombstone, .positive⟩

/-- Reads a key that stands in the tree `tree`. -/
def decode (tree : String) (bytes : Bytes) : Except Error SlotKey :=
  if bytes.length = width then do
    let counterId ← Stored.word tree (bytes.take 8)
    match ServerId.ofBytes? ((bytes.drop 8).take 16) with
    | none => .error (.counter (.invalidWidth tree 16 ((bytes.drop 8).take 16).length))
    | some id =>
      let byte := bytes.getLastD 0
      match Sign.ofByte? byte with
      | none => .error (.counter (.unknownSign byte))
      | some sign => return ⟨counterId, .ofServer id, sign⟩
  else .error (.counter (.invalidWidth tree width bytes.length))

@[simp] theorem length_bytes (key : SlotKey) : key.bytes.length = width := by
  simp [bytes, width, key.owner.server.length_bytes]

end SlotKey

end CounterMesh
