import CounterMesh.Bytes.Word
import CounterMesh.Text.Decimal

/-!
# Command line arguments

A command line is read word by word at a level, which says what options and how
many plain words it takes. Options are written `--name value`, `--name=value`,
`-n value`, `-nvalue` or `-n=value`; after `--` every word is plain. A word that
starts with a hyphen is an option, but for a hyphen alone and for a negative
number where the level expects a number. Reading stops at the first fault.
-/

namespace CounterMesh.Command

/-- What a value on the command line has to be. -/
inductive ValueKind where
  /-- A path, which is not empty. -/
  | path
  | text
  /-- An unsigned 64-bit word. -/
  | word
  /-- A signed 64-bit word. -/
  | signed
  deriving DecidableEq, Repr

/-- The unsigned word that a value stands for; a plus sign may stand in front. -/
def word? (value : String) : Option UInt64 :=
  match value.toList with
  | '+' :: digits => (Decimal.nat? digits).bind Word.ofNat?
  | digits => (Decimal.nat? digits).bind Word.ofNat?

/-- The signed word that a value stands for; a sign may stand in front. -/
def signed? (value : String) : Option Int64 := (Decimal.int? value.toList).bind Word.ofInt?

/-- Whether a value is of this kind. -/
def ValueKind.accepts (value : String) : ValueKind → Bool
  | .path => !value.isEmpty
  | .text => true
  | .word => (word? value).isSome
  | .signed => (signed? value).isSome

/-- What an option asks for. -/
inductive OptionRole where
  /-- To take the value that comes with it. -/
  | value (kind : ValueKind)
  | flag
  /-- To show a help text and do nothing else. -/
  | help
  /-- To show the version and do nothing else. -/
  | version
  deriving DecidableEq, Repr

/-- An option. -/
structure OptionSpec where
  name : String
  letter : Option Char := none
  role : OptionRole
  deriving DecidableEq, Repr

/-- What may stand on a command line. -/
structure Level where
  options : List OptionSpec
  /-- The plain words in their order. -/
  words : List ValueKind := []
  /-- The words that end this level and start another one. -/
  commands : List String := []
  deriving DecidableEq, Repr

/-- Why there is nothing to run. -/
inductive Halt where
  | usage
  | help
  | version
  deriving DecidableEq, Repr

/-- What was read at a level. -/
structure Given where
  /-- The options with their values; a flag has none. -/
  options : List (String × Option String) := []
  words : List String := []
  deriving DecidableEq, Repr

namespace Given

variable (given : Given)

/-- The value of an option. -/
def value? (name : String) : Option String :=
  (given.options.find? fun option => option.1 == name).bind (·.2)

def hasOption (name : String) : Bool := given.options.any fun option => option.1 == name

/-- Takes an option, which must not repeat, with a value of its kind. -/
def addOption (option : OptionSpec) (value : Option String) : Except Halt Given :=
  match option.role, value with
  | .help, none => .error .help
  | .version, none => .error .version
  | .flag, none =>
    if given.hasOption option.name then .error .usage
    else .ok { given with options := given.options ++ [(option.name, none)] }
  | .value kind, some value =>
    if given.hasOption option.name || !kind.accepts value then .error .usage
    else .ok { given with options := given.options ++ [(option.name, some value)] }
  | _, _ => .error .usage

/-- Takes a plain word of the kind that is due. -/
def addWord (level : Level) (word : String) : Except Halt Given :=
  match level.words[given.words.length]? with
  | none => .error .usage
  | some kind =>
    if kind.accepts word then .ok { given with words := given.words ++ [word] }
    else .error .usage

end Given

/-- A word on the command line by its form. -/
inductive WordForm where
  | plain
  | separator
  /-- An option by its name, with a value behind an equals sign. -/
  | named (name : List Char) (value : Option (List Char))
  /-- An option by its letter, with what stands behind it. -/
  | lettered (letter : Char) (rest : List Char)
  deriving DecidableEq, Repr

/-- The form of a word. -/
def WordForm.ofWord : List Char → WordForm
  | ['-', '-'] => .separator
  | '-' :: '-' :: rest =>
    match rest.dropWhile (· ≠ '=') with
    | [] => .named rest none
    | _ :: value => .named (rest.takeWhile (· ≠ '=')) (some value)
  | '-' :: letter :: rest => .lettered letter rest
  | _ => .plain

/-- Whether these are the characters of a number without sign: digits, then a point with or
without digits behind it, then a power of ten without sign; point and power may be missing. -/
def isUnsignedNumber (chars : List Char) : Bool :=
  let (mantissa, power) := chars.span fun c => c ≠ 'e' ∧ c ≠ 'E'
  let (whole, fraction) := mantissa.span (· ≠ '.')
  !whole.isEmpty && whole.all Char.isDigit && fraction.tail.all Char.isDigit &&
    match power with
    | [] => true
    | _ :: digits => !digits.isEmpty && digits.all Char.isDigit

/-- Whether a word is a negative number at a place where the level expects a number. -/
def Level.expectsNegative (level : Level) (given : Given) (word : String) : Bool :=
  level.words[given.words.length]? == some .signed &&
    match word.toList with
    | '-' :: chars => isUnsignedNumber chars
    | _ => false

/-- The option that a word names, with the value that comes in the same word. -/
def Level.option? (level : Level) : WordForm → Option (OptionSpec × Option String)
  | .named name value => do
    let option ← level.options.find? fun option => option.name.toList == name
    return (option, value.map String.ofList)
  | .lettered letter rest => do
    let option ← level.options.find? fun option => option.letter == some letter
    match option.role, rest with
    | .value _, [] => return (option, none)
    | .value _, '=' :: value => return (option, some (String.ofList value))
    | .value _, value => return (option, some (String.ofList value))
    | _, _ => return (option, none)
  | _ => none

/-- Reads the words after the separator, all of which are plain. -/
def Level.readPlain (level : Level) (given : Given) (words : List String) : Except Halt Given :=
  words.foldlM (fun given word => given.addWord level word) given

/-- Reads a level. The option `pending` still waits for its value. When a command ends the level,
it is given with the words behind it. -/
def Level.read (level : Level) (given : Given) (pending : Option OptionSpec) :
    List String → Except Halt (Given × Option (String × List String))
  | [] => if pending.isSome then .error .usage else .ok (given, none)
  | word :: rest =>
    let form := WordForm.ofWord word.toList
    if form = .plain || level.expectsNegative given word then
      match pending with
      | some option => do level.read (← given.addOption option (some word)) none rest
      | none =>
        if level.commands.contains word then .ok (given, some (word, rest))
        else do level.read (← given.addWord level word) none rest
    else if pending.isSome then .error .usage
    else if form = .separator then do return (← level.readPlain given rest, none)
    else
      match level.option? form with
      | none => .error .usage
      | some (option, value) =>
        match option.role, value with
        | .value _, none => level.read given (some option) rest
        | _, _ => do level.read (← given.addOption option value) none rest

end CounterMesh.Command
