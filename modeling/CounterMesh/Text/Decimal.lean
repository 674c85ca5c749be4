/-!
# Decimal text of integers

Integers are written without leading zeros, a negative one after a minus sign.
-/

namespace CounterMesh.Decimal

/-- The digits of a number. -/
def ofNat (n : Nat) : List Char := Nat.toDigits 10 n

/-- The digits of an integer, after a minus sign when it is negative. -/
def ofInt : Int → List Char
  | .ofNat n => ofNat n
  | .negSucc n => '-' :: ofNat (n + 1)

/-- The number that a run of digits stands for; leading zeros are allowed. -/
def nat? (digits : List Char) : Option Nat :=
  if !digits.isEmpty && digits.all Char.isDigit then some (Nat.ofDigitChars 10 digits 0) else none

/-- The integer that digits behind an optional sign stand for. -/
def int? : List Char → Option Int
  | '+' :: digits => (nat? digits).map Int.ofNat
  | '-' :: digits => (nat? digits).map fun n => -Int.ofNat n
  | digits => (nat? digits).map Int.ofNat

@[simp] theorem nat?_ofNat (n : Nat) : nat? (ofNat n) = some n := by
  have hdigits : (Nat.toDigits 10 n).all Char.isDigit = true :=
    List.all_eq_true.2 fun c hc => Nat.isDigit_of_mem_toDigits (by decide) (by decide) hc
  have hempty : (Nat.toDigits 10 n).isEmpty = false :=
    List.isEmpty_eq_false_iff.2 Nat.toDigits_ne_nil
  simp [nat?, ofNat, hdigits, hempty, Nat.ofDigitChars_ten_toDigits]

/-- The decimal text of a 64-bit word. -/
def ofWord (n : UInt64) : String := String.ofList (ofNat n.toNat)

/-- The decimal text of a signed 64-bit word. -/
def ofSigned (n : Int64) : String := String.ofList (ofInt n.toInt)

/-- The decimal text of a number. -/
def text (n : Nat) : String := String.ofList (ofNat n)

end CounterMesh.Decimal
