import CounterMesh.Command.Arguments
import CounterMesh.Command.Report
import CounterMesh.Store.Opening
import CounterMesh.Store.Shutdown
import CounterMesh.Store.Sweep

/-!
# Running a command

A run reads the command line, the configuration and the store, performs the
command, and closes the store. What the command committed is saved even when it
failed afterwards; a store that cannot be opened leaves its file alone.
-/

namespace CounterMesh

/-- What a run leaves behind. -/
structure Outcome where
  exitCode : UInt32
  /-- What is written to the standard output. -/
  output : String := ""
  /-- Why the run failed. -/
  failure : Option Error := none

namespace Outcome

/-- The version of the program. -/
def versionText : String := "tally 0.2.0\n"

/-- How the program is to be called. -/
def usageText : String :=
  "Usage: tally [--data-file PATH] [--config PATH] [--json] COMMAND [ARGUMENTS]\n" ++
    "Commands: " ++ ", ".intercalate (Command.shapes.map (·.1)) ++ "\n"

/-- The outcome of a command line that asks for nothing to be run. -/
def ofHalt : Command.Halt → Outcome
  | .usage => { exitCode := 2 }
  | .help => { exitCode := 0, output := usageText }
  | .version => { exitCode := 0, output := versionText }

/-- The outcome of a run that failed. -/
def failed (output : String) (failure : Error) : Outcome :=
  { exitCode := 1, output, failure := some failure }

end Outcome

namespace Command

/-- Performs a command on an open store. -/
def perform : Command → StoreM Report
  | .inc group name delta =>
    StoreM.transact true do
      let action ← Write.store group name delta
      let total ← Write.query fun t => Index.totalOf t group name
      return .increased group name action total
  | .reset group name => do
    return .reset group name (← StoreM.transact true (Write.reset group name))
  | .delete group name => do
    StoreM.transact true (Write.delete group name)
    return .deleted group name
  | .get group name => do
    return .total ⟨group, name, ← StoreM.query fun t => Index.totalOf t group name⟩
  | .values group name => do
    return .slots (← StoreM.query fun t => Index.slotsOf t group name)
  | .summary group skip take => do
    return .summaries (← StoreM.query fun t => Index.summary t group skip.toNat take.toNat)
  | .groups => return .groups (← StoreM.query Index.groups)
  | .changes since limit => do
    return .changes (← StoreM.query fun t => Index.changes t since limit.toNat)
  | .purge => do
    let batches ← StoreM.purge
    return .purged batches (← StoreM.query Index.tombstonesCount)
  | .stats => return .stats (← StoreM.stats)

end Command

namespace Invocation

variable {m : Type → Type} [Monad m] [Files m]

/-- The settings of an invocation. -/
def config (invocation : Invocation) : m (Except Error Config) := do
  match invocation.configFile with
  | none => return .ok {}
  | some path =>
    let file ← Files.read path
    return Config.ofFile path file.bytes?

/-- Runs an invocation. The failure of the command is reported before that of the shutdown. -/
def run (clock : Clock) (fresh : ServerId) (invocation : Invocation) : m Outcome := do
  match ← invocation.config with
  | .error e => return .failed "" e
  | .ok config =>
    match ← ({ config, clock, fresh } : Opening).startFile invocation.dataFile with
    | .error e => return .failed "" e
    | .ok store =>
      match invocation.command.perform.run store with
      | .error e store =>
        let _ ← store.shutdown
        return .failed "" e
      | .ok report store =>
        let output := report.text invocation.json
        match (← store.shutdown).1 with
        | .error e => return .failed output e
        | .ok _ => return { exitCode := 0, output }

end Invocation

/-- Runs a command line. -/
def Outcome.ofArguments {m : Type → Type} [Monad m] [Files m] (clock : Clock) (fresh : ServerId)
    (environment : Environment) (arguments : List String) : m Outcome :=
  match Invocation.ofArguments environment arguments with
  | .error halt => return .ofHalt halt
  | .ok invocation => invocation.run clock fresh

end CounterMesh
