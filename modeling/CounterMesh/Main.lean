import CounterMesh.Command.Run
import Std.Time

/-!
# The command line program

The program keeps a counter store in a JSON file. It takes the time and the id
of a fresh store from the system, and leaves everything else to `Outcome`.
-/

namespace CounterMesh

/-- The files of the system. -/
instance : Files IO where
  read path := do
    try return .contents (← IO.FS.readBinFile path).data.toList
    catch
      | .noFileOrDirectory .. => return .missing
      | _ => return .unreadable
  write path contents := do
    try
      IO.FS.writeBinFile path ⟨contents.toArray⟩
      return true
    catch _ => return false

/-- A clock that shows the time of the system. -/
def systemClock : IO Clock := do
  let now ← Std.Time.Timestamp.now
  return { millis := UInt64.ofNat now.toMillisecondsSinceUnixEpoch.val.toNat }

/-- An id made of random bytes. -/
def randomServerId : IO ServerId := do
  return (ServerId.ofRandom? (← IO.getRandomBytes 16).data.toList).getD .nil

end CounterMesh

open CounterMesh in
/-- Runs the command line. -/
def main (arguments : List String) : IO UInt32 := do
  let environment : Environment :=
    { dataFile := ← IO.getEnv Environment.dataVariable
      configFile := ← IO.getEnv Environment.configVariable }
  let outcome ← Outcome.ofArguments (← systemClock) (← randomServerId) environment arguments
  IO.print outcome.output
  match outcome.failure with
  | some e => IO.eprintln ("Error: " ++ e.message)
  | none => if outcome.exitCode = 2 then IO.eprint Outcome.usageText
  return outcome.exitCode
