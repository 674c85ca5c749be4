import CounterMesh.Bytes.Word
import CounterMesh.Text.Timestamp

/-!
# Clocks

Deletions, purges and commits read a clock. Reading moves the clock on by one
millisecond, so that two readings differ, unless the clock is held.
-/

namespace CounterMesh

/-- A clock that is moved by hand and by being read. -/
structure Clock where
  millis : UInt64 := 1704067200000
  held : Bool := false
  deriving DecidableEq, Repr, Inhabited

namespace Clock

/-- Reads the clock. -/
def now (clock : Clock) : UInt64 × Clock :=
  (clock.millis, if clock.held then clock else { clock with millis := clock.millis + 1 })

/-- Sets the clock to a time. -/
def set (clock : Clock) (millis : UInt64) : Clock := { clock with millis }

/-- Moves the clock on. -/
def advance (clock : Clock) (millis : UInt64) : Clock :=
  { clock with millis := clock.millis + millis }

/-- Stops the clock from moving when it is read. -/
def hold (clock : Clock) : Clock := { clock with held := true }

/-- Lets the clock move again, however often it was held. -/
def release (clock : Clock) : Clock := { clock with held := false }

/-- The text of a clock in diagnostics. -/
def debugText (clock : Clock) : String :=
  "FixedClock \x7b millis: " ++ Decimal.ofWord clock.millis ++ ", held: " ++
    (if clock.held then "true" else "false") ++ " \x7d"

end Clock

/-- A reading of a clock as the time of a deletion: at most the greatest signed word. -/
def ticksOf (millis : UInt64) : Int64 := Word.clamp millis.toNat

end CounterMesh
