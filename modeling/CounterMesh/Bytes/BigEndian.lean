import CounterMesh.Bytes

/-!
# Big-endian numerals

A number is written with a fixed count of base-256 digits, the most significant
first, so that numerals of one width sort as the numbers they stand for.
Reading a numeral gives back the number, and writing the number gives back the
numeral.
-/

namespace CounterMesh.BigEndian

/-- The numeral of `n` with `width` digits; higher digits are dropped. -/
def encode : (width n : Nat) → Bytes
  | 0, _ => []
  | width + 1, n => encode width (n / 256) ++ [UInt8.ofNat n]

/-- How many numbers have a numeral of `width` digits. -/
def capacity : (width : Nat) → Nat
  | 0 => 1
  | width + 1 => capacity width * 256

/-- The number that a numeral stands for. -/
def decode (bytes : Bytes) : Nat :=
  bytes.foldl (fun n byte => n * 256 + byte.toNat) 0

@[simp] theorem length_encode (width n : Nat) : (encode width n).length = width := by
  induction width generalizing n with
  | zero => rfl
  | succ width ih => simp [encode, ih]

@[simp] theorem decode_nil : decode [] = 0 := rfl

@[simp] theorem decode_concat (bytes : Bytes) (byte : UInt8) :
    decode (bytes ++ [byte]) = decode bytes * 256 + byte.toNat := by
  simp [decode]

theorem decode_encode_mod (width n : Nat) : decode (encode width n) = n % capacity width := by
  induction width generalizing n with
  | zero => simp [encode, capacity, Nat.mod_one]
  | succ width ih =>
    rw [encode, decode_concat, ih, capacity, Nat.mul_comm (capacity width), Nat.mod_mul]
    simp only [UInt8.toNat_ofNat']
    omega

/-- A number that fits is read back unchanged. -/
theorem decode_encode {width n : Nat} (h : n < capacity width) : decode (encode width n) = n := by
  rw [decode_encode_mod, Nat.mod_eq_of_lt h]

theorem decode_lt (bytes : Bytes) : decode bytes < capacity bytes.length := by
  suffices h : ∀ reversed : Bytes, decode reversed.reverse < capacity reversed.length by
    simpa using h bytes.reverse
  intro reversed
  induction reversed with
  | nil => simp [capacity]
  | cons byte rest ih =>
    have hbyte : byte.toNat < 256 := byte.toNat_lt
    simp only [List.reverse_cons, decode_concat, List.length_cons, capacity]
    omega

/-- Every numeral is the numeral of its number. -/
theorem encode_decode (bytes : Bytes) : encode bytes.length (decode bytes) = bytes := by
  suffices h : ∀ reversed : Bytes,
      encode reversed.length (decode reversed.reverse) = reversed.reverse by
    simpa using h bytes.reverse
  intro reversed
  induction reversed with
  | nil => rfl
  | cons byte rest ih =>
    have hbyte : byte.toNat < 256 := byte.toNat_lt
    have hdiv : (decode rest.reverse * 256 + byte.toNat) / 256 = decode rest.reverse := by omega
    have hlast : UInt8.ofNat (decode rest.reverse * 256 + byte.toNat) = byte := by
      apply UInt8.toNat_inj.1
      simp only [UInt8.toNat_ofNat']
      omega
    simp only [List.reverse_cons, decode_concat, List.length_cons, encode, hdiv, ih, hlast]

end CounterMesh.BigEndian
