import CounterMesh.Bytes
import CounterMesh.Text.Quoted

/-!
# Hexadecimal text

A byte is written as two lower-case digits. Reading takes digits of either case
and names the first fault: an odd count of digits, or a character that is no
digit, with its place in the UTF-8 form of the text.
-/

namespace CounterMesh.Hex

/-- The lower-case digit of a number below sixteen. -/
def digit (n : Nat) : Char := "0123456789abcdef".toList.getD n '0'

/-- The number of a digit of either case. -/
def digitValue? (byte : UInt8) : Option Nat :=
  if 48 ≤ byte ∧ byte ≤ 57 then some (byte.toNat - 48)
  else if 97 ≤ byte ∧ byte ≤ 102 then some (byte.toNat - 87)
  else if 65 ≤ byte ∧ byte ≤ 70 then some (byte.toNat - 55)
  else none

/-- The two digits of a byte. -/
def digitsOf (byte : UInt8) : List Char := [digit (byte.toNat / 16), digit (byte.toNat % 16)]

/-- The hexadecimal text of a byte string. -/
def encode (bytes : Bytes) : String := String.ofList (bytes.flatMap digitsOf)

/-- Why a text is not hexadecimal. -/
inductive Fault where
  /-- The digits do not pair up. -/
  | oddLength
  /-- The byte at `index` of the text is no digit. -/
  | badDigit (byte : UInt8) (index : Nat)
  deriving DecidableEq, Repr

/-- The wording of a fault; a byte that is no digit is shown as the character of its number. -/
def Fault.message : Fault → String
  | .oddLength => "Odd number of digits"
  | .badDigit byte index =>
    "Invalid character " ++ Quoted.quoteChar (Char.ofNat byte.toNat) ++ " at position " ++
      toString index

/-- Reads pairs of digits, the first of which stands at `index`. -/
def decodePairs (index : Nat) : Bytes → Except Fault Bytes
  | high :: low :: rest =>
    match digitValue? high, digitValue? low with
    | none, _ => .error (.badDigit high index)
    | some _, none => .error (.badDigit low (index + 1))
    | some h, some l => (UInt8.ofNat (h * 16 + l) :: ·) <$> decodePairs (index + 2) rest
  | _ => .ok []

/-- The byte string that a hexadecimal text stands for. -/
def decode (text : String) : Except Fault Bytes :=
  let bytes := Bytes.ofText text
  if bytes.length % 2 = 1 then .error .oddLength else decodePairs 0 bytes

end CounterMesh.Hex
