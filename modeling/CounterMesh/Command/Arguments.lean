import CounterMesh.Command.Options

/-!
# Invocations

What the command line asks for: a command with its arguments, and the files and
the output form, which may be given before or after the name of the command.
Where both are given, the later one counts; the environment counts where
neither is.
-/

namespace CounterMesh

/-- A command with its arguments. -/
inductive Command where
  | inc (group name : String) (delta : Int64)
  | reset (group name : String)
  | delete (group name : String)
  | get (group name : String)
  | values (group name : String)
  /-- Lists counters of one group, or of all groups for an empty group. -/
  | summary (group : String) (skip take : UInt64)
  | groups
  | changes (since limit : UInt64)
  | purge
  | stats
  deriving DecidableEq, Repr

/-- A command with the files that it works on. -/
structure Invocation where
  dataFile : String
  configFile : Option String
  /-- Whether the output is JSON. -/
  json : Bool
  command : Command
  deriving DecidableEq, Repr

/-- The variables of the environment that name files. -/
structure Environment where
  dataFile : Option String := none
  configFile : Option String := none
  deriving DecidableEq, Repr

namespace Environment

/-- The variable that names the data file. -/
def dataVariable : String := "TALLY_DATA_FILE"

/-- The variable that names the configuration file. -/
def configVariable : String := "TALLY_CONFIG"

end Environment

namespace Command

/-- The options of every level. -/
def sharedOptions : List OptionSpec :=
  [{ name := "data-file", letter := some 'D', role := .value .path },
   { name := "config", letter := some 'c', role := .value .path },
   { name := "json", role := .flag },
   { name := "help", letter := some 'h', role := .help }]

/-- What a command takes besides the shared options. -/
structure Shape where
  options : List OptionSpec := []
  words : List ValueKind := []
  /-- How many of the words must be there. -/
  required : Nat := words.length

/-- The word that asks for help. -/
def helpWord : String := "help"

/-- The commands by name. -/
def shapes : List (String × Shape) :=
  [("inc", { words := [.text, .text, .signed], required := 2 }),
   ("reset", { words := [.text, .text] }),
   ("delete", { words := [.text, .text] }),
   ("get", { words := [.text, .text] }),
   ("values", { words := [.text, .text] }),
   ("summary", { options :=
     [{ name := "group", letter := some 'g', role := .value .text },
      { name := "skip", role := .value .word },
      { name := "take", role := .value .word }] }),
   ("groups", {}),
   ("changes", { options :=
     [{ name := "since", role := .value .word },
      { name := "limit", letter := some 'l', role := .value .word }] }),
   ("purge", {}),
   ("stats", {})]

/-- The words in front of the name of a command. -/
def topLevel : Level where
  options := sharedOptions ++ [{ name := "version", letter := some 'V', role := .version }]
  commands := shapes.map (·.1) ++ [helpWord]

/-- The words behind the name of a command. -/
def Shape.level (shape : Shape) : Level where
  options := shape.options ++ sharedOptions
  words := shape.words

/-- The number of an option, or a default. -/
def wordOption (given : Given) (name : String) (default : UInt64) : UInt64 :=
  ((given.value? name).bind word?).getD default

/-- The command with this name and these arguments. -/
def ofGiven? (name : String) (given : Given) : Option Command :=
  match name, given.words with
  | "inc", [group, name] => some (.inc group name 1)
  | "inc", [group, name, delta] => (signed? delta).map (.inc group name)
  | "reset", [group, name] => some (.reset group name)
  | "delete", [group, name] => some (.delete group name)
  | "get", [group, name] => some (.get group name)
  | "values", [group, name] => some (.values group name)
  | "summary", [] =>
    some (.summary ((given.value? "group").getD "") (wordOption given "skip" 0)
      (wordOption given "take" 50))
  | "groups", [] => some .groups
  | "changes", [] => some (.changes (wordOption given "since" 0) (wordOption given "limit" 100))
  | "purge", [] => some .purge
  | "stats", [] => some .stats
  | _, _ => none

end Command

namespace Invocation

/-- A variable counts at every level that does not give its option, and has to be a path there. -/
def checkVariable (levels : List Command.Given) (option : String) (value : Option String) :
    Except Command.Halt Unit :=
  if value = some "" ∧ levels.any fun given => !given.hasOption option then .error .usage
  else .ok ()

/-- The value of a shared option: from the innermost level that gives it, or from the
environment. -/
def sharedValue? (levels : List Command.Given) (option : String) (value : Option String) :
    Option String :=
  (levels.reverse.findSome? fun given => given.value? option).or value

/-- The invocation that the command line asks for. -/
def ofArguments (environment : Environment) (arguments : List String) :
    Except Command.Halt Invocation := do
  let (outer, rest) ← Command.topLevel.read {} none arguments
  match rest with
  | none => throw .usage
  | some (name, rest) =>
    match Command.shapes.lookup name with
    | none =>
      if rest.length ≤ 1 && rest.all Command.topLevel.commands.contains then throw .help
      else throw .usage
    | some shape =>
      let (inner, _) ← shape.level.read {} none rest
      let levels := [outer, inner]
      if inner.words.length < shape.required then throw .usage
      checkVariable levels "data-file" environment.dataFile
      checkVariable levels "config" environment.configFile
      match Command.ofGiven? name inner with
      | none => throw .usage
      | some command =>
        return {
          command
          dataFile := (sharedValue? levels "data-file" environment.dataFile).getD "tally.json"
          configFile := sharedValue? levels "config" environment.configFile
          json := levels.any fun given => given.hasOption "json" }

end Invocation

end CounterMesh
