import CounterMesh.Json
import CounterMesh.Text.Decimal

/-!
# Finite numbers

A document may write numbers of any size, but a number that is held in memory
has to be finite as a double-precision number. It is held as a significand,
which fits a 64-bit word, and a power of ten. Digits that no longer fit are left
out: in the whole part they still count as places, in the fraction they do not
count at all. Significand and power are rounded before they are multiplied.
-/

namespace CounterMesh.Json

/-- A significand and the power of ten that scales it. -/
structure Scaled where
  significand : Nat
  power : Int
  deriving DecidableEq, Repr

namespace Scaled

/-- Appends digits to a significand as long as it fits a word, and gives the digits that are left
out. -/
def append (significand : Nat) : List Char → Nat × List Char
  | [] => (significand, [])
  | c :: digits =>
    let longer := significand * 10 + (c.toNat - 48)
    if longer < UInt64.size then append longer digits else (significand, c :: digits)

/-- The digits of the whole part and of the fraction behind it. -/
def ofDigits (whole fraction : List Char) : Scaled :=
  let (significand, places) := append 0 whole
  let (significand, rest) := append significand fraction
  ⟨significand, Int.ofNat places.length - Int.ofNat (fraction.length - rest.length)⟩

/-- The number that a literal holds, without its sign. -/
def ofLiteral? (literal : List Char) : Option Scaled := do
  let (mantissa, exponent) := (literal.dropWhile (· == '-')).span fun c => c ≠ 'e' ∧ c ≠ 'E'
  let (whole, fraction) := mantissa.span (· ≠ '.')
  let power ← if exponent.isEmpty then some 0 else Decimal.int? exponent.tail
  let scaled := ofDigits whole fraction.tail
  return { scaled with power := scaled.power + power }

/-- The nearest number with a significand of 53 bits; a number in the middle between two of them
goes to the even one. -/
def nearest (n : Nat) : Nat :=
  let unit := Nat.pow 2 (n.log2 - 52)
  let lower := n / unit
  let rest := n % unit
  if unit < 2 * rest ∨ 2 * rest = unit ∧ lower % 2 = 1 then (lower + 1) * unit else lower * unit

/-- The least magnitude that rounds beyond the finite double-precision numbers. -/
def overflow : Nat := Nat.pow 2 1024 - Nat.pow 2 970

/-- The greatest power of ten that is finite. -/
def maxPower : Nat := 308

/-- Whether the product of significand and power is finite. A quotient always is. -/
def isFinite (n : Scaled) : Bool :=
  n.significand = 0 || n.power < 0 ||
    n.power ≤ maxPower && nearest n.significand * nearest (Nat.pow 10 n.power.toNat) < overflow

end Scaled

/-- Whether a number is finite as it is held. -/
def isFinite (literal : List Char) : Bool :=
  match Scaled.ofLiteral? literal with
  | some n => n.isFinite
  | none => false

end CounterMesh.Json
