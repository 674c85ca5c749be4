import CounterMesh.Bytes.Word
import CounterMesh.Json
import CounterMesh.Json.Escape
import CounterMesh.Text.Decimal

/-!
# Values in JSON documents

How values of the basic kinds are read out of a document. A record is an object
with fields in any order, where unknown fields are passed over and a known field
must not repeat, or an array with the fields in their declared order, where the
last ones may be missing. A variant is its name, or an object whose one field
has that name and no value.
-/

namespace CounterMesh.Json

/-- The text that a string literal stands for. -/
def textOf? (literal : List Char) : Option String := (unescape literal).map String.ofList

def asText? : Json → Option String
  | .str literal => textOf? literal
  | _ => none

def asBool? : Json → Option Bool
  | .bool value => some value
  | _ => none

/-- The integer that a literal without fraction and exponent stands for. A zero has no sign. -/
def integerOf? : List Char → Option Int
  | '-' :: digits => (Decimal.nat? digits).bind fun n => if n = 0 then none else some (-Int.ofNat n)
  | digits => (Decimal.nat? digits).map Int.ofNat

def asInteger? : Json → Option Int
  | .num literal => integerOf? literal
  | _ => none

/-- A number below `bound`. -/
def asNatBelow? (bound : Nat) (document : Json) : Option Nat := do
  let n ← document.asInteger?
  if 0 ≤ n ∧ n < bound then some n.toNat else none

/-- A 64-bit word. -/
def asWord? (document : Json) : Option UInt64 := (document.asNatBelow? UInt64.size).map UInt64.ofNat

/-- A signed 64-bit word. -/
def asSigned? (document : Json) : Option Int64 := document.asInteger?.bind Word.ofInt?

/-- A value that may be absent, which is written as null. -/
def asOptional? (value? : Json → Option α) : Json → Option (Option α)
  | .null => some none
  | document => (value? document).map some

/-- A list of values of one kind. -/
def asList? (value? : Json → Option α) : Json → Option (List α)
  | .arr items => items.mapM value?
  | _ => none

/-- An object with texts as keys, in the order in which it was written. -/
def asEntries? (value? : Json → Option α) : Json → Option (List (String × α))
  | .obj fields => fields.mapM fun (key, value) => do return (← textOf? key, ← value? value)
  | _ => none

/-- The one value under `name`, or that there is none; a repeated name is refused. -/
def field? (fields : List (String × Json)) (name : String) : Option (Option Json) :=
  match fields.filter fun field => field.1 == name with
  | [] => some none
  | [field] => some (some field.2)
  | _ => none

/-- The fields of a record in the order of `names`, each of which may be missing. -/
def asRecord? (names : List String) : Json → Option (List (Option Json))
  | .obj fields => do
    let fields ← fields.mapM fun (key, value) => (·, value) <$> textOf? key
    names.mapM (field? fields)
  | .arr items =>
    if items.length ≤ names.length then
      some (items.map some ++ List.replicate (names.length - items.length) none)
    else none
  | _ => none

/-- The name of a variant without contents. -/
def asVariant? : Json → Option String
  | .str literal => textOf? literal
  | .obj [(key, .null)] => textOf? key
  | _ => none

end CounterMesh.Json
