import CounterMesh.Counter.NameEntry
import CounterMesh.Counter.Slot
import CounterMesh.Proofs.Bytes.Order
import Mathlib.Logic.Function.Basic

/-!
# Places and codes

A place names a slot by the server id in its key, so that two places never share
a key; the reserved id makes it the place of a tombstone. A code is a way of
writing values as byte strings that tells them apart. The trees of a store use
one code for their keys and one for their values.
-/

namespace CounterMesh

/-- The place of a slot, by the server id in its key. -/
structure Place where
  counterId : CounterId
  serverId : ServerId
  sign : Sign
  deriving DecidableEq

namespace Place

/-- The slot at a place. -/
def slot (p : Place) : SlotKey := ⟨p.counterId, .ofServer p.serverId, p.sign⟩

/-- The key of the slot at a place. -/
def bytes (p : Place) : Bytes := p.slot.bytes

/-- The place of the tombstone of a counter. -/
def tombstone (counterId : CounterId) : Place := ⟨counterId, .nil, .positive⟩

theorem bytes_eq (p : Place) :
    p.bytes = Word.big p.counterId ++ (p.serverId.bytes ++ [p.sign.byte]) := by
  simp [bytes, slot, SlotKey.bytes]

@[simp] theorem slot_owner_server (p : Place) : p.slot.owner.server = p.serverId :=
  Owner.server_ofServer p.serverId

theorem bytes_slotKey (counterId : CounterId) (owner : Owner) (sign : Sign) :
    SlotKey.bytes ⟨counterId, owner, sign⟩ = bytes ⟨counterId, owner.server, sign⟩ := by
  simp [bytes, slot, SlotKey.bytes]

@[simp] theorem bytes_tombstone (counterId : CounterId) :
    (SlotKey.tombstone counterId).bytes = (tombstone counterId).bytes :=
  bytes_slotKey counterId .tombstone .positive

/-- The key of a place is read back as its slot. -/
@[simp] theorem decode_bytes (tree : String) (p : Place) :
    SlotKey.decode tree p.bytes = .ok p.slot := by
  have hlength : p.bytes.length = SlotKey.width := SlotKey.length_bytes p.slot
  have hid : p.bytes.take 8 = Word.big p.counterId := by
    rw [bytes_eq, List.take_left' (Word.length_big _)]
  have hserver : (p.bytes.drop 8).take 16 = p.serverId.bytes := by
    rw [bytes_eq, List.drop_left' (Word.length_big _), List.take_left' p.serverId.length_bytes]
  have hsign : p.bytes.getLastD 0 = p.sign.byte := by
    rw [bytes_eq, ← List.append_assoc, List.getLastD_concat]
  rw [SlotKey.decode, if_pos hlength, hid, hserver, hsign, Stored.word_big]
  simp only [ServerId.ofBytes?_bytes, Sign.ofByte?_byte]
  rfl

theorem bytes_injective : Function.Injective bytes := by
  intro p q h
  have hslot : p.slot = q.slot := by
    have hdecode := congrArg (SlotKey.decode "") h
    rw [decode_bytes, decode_bytes] at hdecode
    exact Except.ok.inj hdecode
  have hserver := congrArg (fun slot => slot.owner.server) hslot
  have hid := congrArg SlotKey.counterId hslot
  have hsign := congrArg SlotKey.sign hslot
  simp only [slot_owner_server] at hserver
  cases p
  cases q
  simp only [mk.injEq]
  exact ⟨hid, hserver, hsign⟩

/-- The keys of a counter are those that start with its id. -/
theorem prefix_bytes_iff (counterId : CounterId) (p : Place) :
    Word.big counterId <+: p.bytes ↔ p.counterId = counterId := by
  rw [bytes_eq, Word.big_prefix_append_iff]

end Place

namespace GroupEntry

theorem idFor?_bytes (name : Bytes) (counterId : CounterId) :
    idFor? name (bytes name counterId) = some counterId :=
  idFor?_eq_some_iff.2 ⟨Word.big counterId, rfl, Word.big?_big counterId⟩

/-- An entry comes apart into its name and its id again. -/
@[simp] theorem split_bytes (tree : String) (name : Bytes) (counterId : CounterId) :
    split tree (bytes name counterId) = .ok (name, counterId) := by
  have hlength : (bytes name counterId).length = name.length + 8 := by simp [bytes]
  have hstart : (bytes name counterId).length - 8 = name.length := by omega
  rw [split, if_neg (by omega), hstart]
  simp only [bytes, List.take_left, List.drop_left, Stored.word_big]
  rfl

end GroupEntry

namespace NameKey

@[simp] theorem split_bytes (tree : String) (counterId : CounterId) (name : Bytes) :
    split tree (bytes counterId name) = .ok (counterId, name) := by
  have hlength : (bytes counterId name).length = 8 + name.length := by simp [bytes]
  rw [split, if_neg (by omega), bytes, List.take_left' (Word.length_big _),
    List.drop_left' (Word.length_big _), Stored.word_big]
  rfl

/-- The keys of the names of a counter are those that start with its id. -/
theorem prefix_bytes_iff (counterId id : CounterId) (name : Bytes) :
    Word.big counterId <+: bytes id name ↔ id = counterId :=
  Word.big_prefix_append_iff counterId id name

end NameKey

/-- A way of writing values as byte strings that tells them apart. -/
structure Code (α : Type) where
  bytes : α → Bytes
  injective : Function.Injective bytes

namespace Code

/-- Byte strings stand for themselves. -/
def raw : Code Bytes := ⟨id, Function.injective_id⟩

/-- Counter ids and etags. -/
def word : Code UInt64 := ⟨Word.big, Word.big_injective⟩

/-- Values of slots. -/
def value : Code Int64 := ⟨Word.little, Word.little_injective⟩

/-- Dates of deletions. -/
def date : Code Int64 := ⟨Word.ordered, Word.ordered_injective⟩

/-- Groups. -/
def text : Code String := ⟨Bytes.ofText, Bytes.ofText_injective⟩

/-- Nodes. -/
def server : Code ServerId := ⟨ServerId.bytes, fun _ _ h => ServerId.ext h⟩

/-- Slots. -/
def place : Code Place := ⟨Place.bytes, Place.bytes_injective⟩

/-- Counters in their group: the name with the id. -/
def groupEntry : Code (String × CounterId) where
  bytes entry := GroupEntry.bytes (Bytes.ofText entry.1) entry.2
  injective := by
    rintro ⟨name, id⟩ ⟨name', id'⟩ h
    have hsplit := congrArg (GroupEntry.split "") h
    simp only [GroupEntry.split_bytes, Except.ok.injEq, Prod.mk.injEq] at hsplit
    rw [Prod.mk.injEq]
    exact ⟨Bytes.ofText_injective hsplit.1, hsplit.2⟩

/-- Names of counters: the id with the name. -/
def nameKey : Code (CounterId × String) where
  bytes key := NameKey.bytes key.1 (Bytes.ofText key.2)
  injective := by
    rintro ⟨id, name⟩ ⟨id', name'⟩ h
    have hsplit := congrArg (NameKey.split "") h
    simp only [NameKey.split_bytes, Except.ok.injEq, Prod.mk.injEq] at hsplit
    rw [Prod.mk.injEq]
    exact ⟨hsplit.1, Bytes.ofText_injective hsplit.2⟩

end Code

end CounterMesh
