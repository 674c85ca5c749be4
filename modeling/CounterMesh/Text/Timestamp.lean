import CounterMesh.Text.Decimal

/-!
# Timestamps

A point in time is a count of milliseconds since the start of 1970, in the
proleptic Gregorian calendar and without leap seconds. Its text gives date and
time of day; the fraction of a second is left out when it is zero, and a year of
more than four digits carries a plus sign.
-/

namespace CounterMesh

/-- A calendar date. -/
structure Date where
  year : Nat
  month : Nat
  day : Nat
  deriving DecidableEq, Repr

/-- The date that lies `days` after the first of January 1970. Years are counted from the first of
March, so that the leap day is the last of its year. -/
def Date.ofDays (days : Nat) : Date :=
  let shifted := days + 719468
  let era := shifted / 146097
  let dayOfEra := shifted % 146097
  let yearOfEra := (dayOfEra - dayOfEra / 1460 + dayOfEra / 36524 - dayOfEra / 146096) / 365
  let dayOfYear := dayOfEra - (365 * yearOfEra + yearOfEra / 4 - yearOfEra / 100)
  let monthFromMarch := (5 * dayOfYear + 2) / 153
  { year := yearOfEra + era * 400 + (if monthFromMarch < 10 then 0 else 1)
    month := if monthFromMarch < 10 then monthFromMarch + 3 else monthFromMarch - 9
    day := dayOfYear - (153 * monthFromMarch + 2) / 5 + 1 }

/-- A point in time that has a calendar date. -/
structure Timestamp where
  millis : Nat
  deriving DecidableEq, Repr

namespace Timestamp

/-- The last millisecond of the calendar, at the end of the year 262142. -/
def lastMillis : Nat := 8210266876799999

/-- The time at a count of milliseconds; a count beyond the calendar stands for its start. -/
def ofMillis (millis : UInt64) : Timestamp :=
  ⟨if millis.toNat ≤ lastMillis then millis.toNat else 0⟩

/-- A number with zeros in front, up to `width` digits. -/
def padded (width n : Nat) : List Char :=
  let digits := Decimal.ofNat n
  List.replicate (width - digits.length) '0' ++ digits

/-- The year with at least four digits. -/
def yearText (year : Nat) : List Char :=
  if year ≤ 9999 then padded 4 year else '+' :: Decimal.ofNat year

/-- The fraction of a second behind a point, or nothing. -/
def fractionText (millis : Nat) : List Char := if millis = 0 then [] else '.' :: padded 3 millis

/-- Date and time of day. -/
def clockText (t : Timestamp) : List Char :=
  let date := Date.ofDays (t.millis / 86400000)
  let second := t.millis / 1000 % 86400
  yearText date.year ++ '-' :: padded 2 date.month ++ '-' :: padded 2 date.day ++
    'T' :: padded 2 (second / 3600) ++ ':' :: padded 2 (second / 60 % 60) ++
    ':' :: padded 2 (second % 60) ++ fractionText (t.millis % 1000)

/-- The time with its offset from universal time written as a number. -/
def offsetForm (t : Timestamp) : String := String.ofList (t.clockText ++ "+00:00".toList)

/-- The time with its offset from universal time written as a letter. -/
def zuluForm (t : Timestamp) : String := String.ofList (t.clockText ++ ['Z'])

end Timestamp

end CounterMesh
