import CounterMesh.Bytes.BigEndian

/-!
# Words of eight bytes

Numbers are stored as eight bytes in three forms: unsigned words big-endian,
which sort as the numbers; signed words little-endian; and signed words as keys,
big-endian from the least number on, which sort as the numbers too.
-/

namespace CounterMesh.Word

/-- The unsigned word that is this number, if it is in range. -/
def ofNat? (n : Nat) : Option UInt64 := if n < UInt64.size then some (UInt64.ofNat n) else none

/-- The signed word that is this integer, if it is in range. -/
def ofInt? (n : Int) : Option Int64 :=
  if Int64.minValue.toInt ≤ n ∧ n ≤ Int64.maxValue.toInt then some (Int64.ofInt n) else none

/-- The signed word nearest to this number. -/
def clamp (n : Nat) : Int64 :=
  if Int64.maxValue.toInt ≤ n then Int64.maxValue else Int64.ofNat n

/-- The big-endian form of an unsigned word. -/
def big (n : UInt64) : Bytes := BigEndian.encode 8 n.toNat

/-- The unsigned word with this big-endian form. -/
def big? (bytes : Bytes) : Option UInt64 :=
  if bytes.length = 8 then some (UInt64.ofNat (BigEndian.decode bytes)) else none

/-- The little-endian form of a signed word. -/
def little (n : Int64) : Bytes := (big n.toUInt64).reverse

/-- The signed word with this little-endian form. -/
def little? (bytes : Bytes) : Option Int64 := (big? bytes.reverse).map UInt64.toInt64

/-- The form of a signed word that sorts as the number: its distance from the least word. -/
def ordered (n : Int64) : Bytes := big (n.toUInt64 ^^^ 0x8000000000000000)

/-- The signed word with this ordered form. -/
def ordered? (bytes : Bytes) : Option Int64 :=
  (big? bytes).map fun n => (n ^^^ 0x8000000000000000).toInt64

@[simp] theorem length_big (n : UInt64) : (big n).length = 8 := BigEndian.length_encode 8 n.toNat

@[simp] theorem length_little (n : Int64) : (little n).length = 8 := by simp [little]

@[simp] theorem length_ordered (n : Int64) : (ordered n).length = 8 := by simp [ordered]

@[simp] theorem big?_big (n : UInt64) : big? (big n) = some n := by
  have h : n.toNat < BigEndian.capacity 8 := n.toNat_lt
  simp [big?, big, BigEndian.decode_encode h]

@[simp] theorem little?_little (n : Int64) : little? (little n) = some n := by
  simp [little?, little]

@[simp] theorem ordered?_ordered (n : Int64) : ordered? (ordered n) = some n := by
  have h : n.toUInt64 ^^^ 0x8000000000000000 ^^^ 0x8000000000000000 = n.toUInt64 := by
    rw [UInt64.xor_assoc, UInt64.xor_self, UInt64.xor_zero]
  rw [ordered?, ordered, big?_big, Option.map_some, h, Int64.toInt64_toUInt64]

theorem big?_eq_none_iff (bytes : Bytes) : big? bytes = none ↔ bytes.length ≠ 8 := by
  simp [big?]

end CounterMesh.Word
