import CounterMesh.Bytes.Word
import CounterMesh.Error

/-!
# Stored fields

How the bytes of an entry are read. A field of the wrong width and a name that
is not UTF-8 are damage to the tree that the entry comes from.
-/

namespace CounterMesh

/-- The number that identifies a counter within one store. -/
abbrev CounterId := UInt64

/-- The number of a write within one store; later writes have greater numbers. -/
abbrev Etag := UInt64

namespace Stored

/-- A field of eight bytes that failed to decode is of the wrong width. -/
def sized (tree : String) (bytes : Bytes) (value : Option α) : Except Error α :=
  match value with
  | some value => .ok value
  | none => .error (.counter (.invalidWidth tree 8 bytes.length))

/-- A counter id or an etag. -/
def word (tree : String) (bytes : Bytes) : Except Error UInt64 :=
  sized tree bytes (Word.big? bytes)

/-- The value of a slot. -/
def value (tree : String) (bytes : Bytes) : Except Error Int64 :=
  sized tree bytes (Word.little? bytes)

/-- The date of a deletion, as a key. -/
def ticks (tree : String) (bytes : Bytes) : Except Error Int64 :=
  sized tree bytes (Word.ordered? bytes)

/-- A name. -/
def text (tree : String) (bytes : Bytes) : Except Error String :=
  match Bytes.text? bytes with
  | some text => .ok text
  | none => .error (.counter (.inconsistentIndex tree (.unreadableName bytes)))

@[simp] theorem word_big (tree : String) (n : UInt64) : word tree (Word.big n) = .ok n := by
  simp [word, sized]

@[simp] theorem value_little (tree : String) (n : Int64) : value tree (Word.little n) = .ok n := by
  simp [value, sized]

@[simp] theorem ticks_ordered (tree : String) (n : Int64) :
    ticks tree (Word.ordered n) = .ok n := by
  simp [ticks, sized]

@[simp] theorem text_ofText (tree name : String) : text tree (Bytes.ofText name) = .ok name := by
  simp [text]

end Stored

end CounterMesh
