import CounterMesh.Counter.NameEntry

/-!
# Key buffers

A writer builds its name entries in one buffer, each in place of the one before.
The buffer grows to the next power of two when an entry needs more room, and is
never shrunk. Nothing of an older entry is left in a newer one, so that the steps
of a writer are stated with the entries themselves; only the statements about the
keys speak of the buffer.
-/

namespace CounterMesh

/-- Scratch space for keys of varying width. -/
structure KeyBuffer where
  /-- The key that was built last. -/
  bytes : Bytes := []
  /-- How many bytes there is room for. -/
  capacity : Nat := 0
  deriving DecidableEq, Repr

namespace KeyBuffer

/-- The least power of two that is not less than a length. -/
def roundUp (length : Nat) : Nat := if length ≤ 1 then 1 else 1 <<< ((length - 1).log2 + 1)

variable (buffer : KeyBuffer)

/-- Empties the buffer, and makes room for a key of this length. -/
def start (length : Nat) : KeyBuffer where
  bytes := []
  capacity := if buffer.capacity < length then roundUp length else buffer.capacity

/-- Appends to the key that is being built. -/
def extend (part : Bytes) : KeyBuffer := { buffer with bytes := buffer.bytes ++ part }

/-- Builds a key of two parts. -/
def build (front back : Bytes) : KeyBuffer :=
  ((buffer.start (front.length + back.length)).extend front).extend back

/-- Builds the entry of a counter in its group. -/
def groupEntry (name : Bytes) (counterId : CounterId) : KeyBuffer :=
  buffer.build name (Word.big counterId)

/-- Builds the key under which the group of a counter is found from its id. -/
def nameKey (counterId : CounterId) (name : Bytes) : KeyBuffer :=
  buffer.build (Word.big counterId) name

@[simp] theorem bytes_build (front back : Bytes) :
    (buffer.build front back).bytes = front ++ back := rfl

@[simp] theorem bytes_groupEntry (name : Bytes) (counterId : CounterId) :
    (buffer.groupEntry name counterId).bytes = GroupEntry.bytes name counterId := rfl

@[simp] theorem bytes_nameKey (counterId : CounterId) (name : Bytes) :
    (buffer.nameKey counterId name).bytes = NameKey.bytes counterId name := rfl

end KeyBuffer

end CounterMesh
