import CounterMesh.Json.Escape
import CounterMesh.Json
import CounterMesh.Text.Decimal

/-!
# Writing JSON text

The compact form has no white space; the indented form puts every item and field
on a line of its own, two blanks deeper than the list it belongs to, and writes
an empty list as a pair of brackets.
-/

namespace CounterMesh.Json

/-- The document of a text. -/
def text (value : String) : Json := .str (escape value.toList)

/-- The document of an integer. -/
def int (value : Int) : Json := .num (Decimal.ofInt value)

/-- The document of a number. -/
def nat (value : Nat) : Json := .num (Decimal.ofNat value)

/-- The document with these fields. -/
def record (fields : List (String × Json)) : Json :=
  .obj (fields.map fun field => (escape field.1.toList, field.2))

/-- A literal with its quotes. -/
def quoted (literal : List Char) : List Char := '"' :: literal ++ ['"']

mutual

/-- The compact text of a document. -/
def compact : Json → List Char
  | .null => "null".toList
  | .bool true => "true".toList
  | .bool false => "false".toList
  | .num literal => literal
  | .str literal => quoted literal
  | .arr [] => ['[', ']']
  | .arr (item :: items) => '[' :: compact item ++ compactItems items
  | .obj [] => ['\x7b', '\x7d']
  | .obj ((key, value) :: fields) =>
    '\x7b' :: quoted key ++ ':' :: compact value ++ compactFields fields

/-- The further items of an array and its end. -/
def compactItems : List Json → List Char
  | [] => [']']
  | item :: items => ',' :: compact item ++ compactItems items

/-- The further fields of an object and its end. -/
def compactFields : List (List Char × Json) → List Char
  | [] => ['\x7d']
  | (key, value) :: fields =>
    ',' :: quoted key ++ ':' :: compact value ++ compactFields fields

end

/-- The end of a line and the blanks that open the next one. -/
def newline (depth : Nat) : List Char := '\n' :: List.replicate (2 * depth) ' '

mutual

/-- The indented text of a document whose first line is `depth` steps deep. -/
def indented (depth : Nat) : Json → List Char
  | .null => "null".toList
  | .bool true => "true".toList
  | .bool false => "false".toList
  | .num literal => literal
  | .str literal => quoted literal
  | .arr [] => ['[', ']']
  | .arr (item :: items) =>
    '[' :: newline (depth + 1) ++ indented (depth + 1) item ++ indentedItems depth items
  | .obj [] => ['\x7b', '\x7d']
  | .obj ((key, value) :: fields) =>
    '\x7b' :: newline (depth + 1) ++ quoted key ++ ':' :: ' ' :: indented (depth + 1) value ++
      indentedFields depth fields

/-- The further items of an array and its end. -/
def indentedItems (depth : Nat) : List Json → List Char
  | [] => newline depth ++ [']']
  | item :: items =>
    ',' :: newline (depth + 1) ++ indented (depth + 1) item ++ indentedItems depth items

/-- The further fields of an object and its end. -/
def indentedFields (depth : Nat) : List (List Char × Json) → List Char
  | [] => newline depth ++ ['\x7d']
  | (key, value) :: fields =>
    ',' :: newline (depth + 1) ++ quoted key ++ ':' :: ' ' :: indented (depth + 1) value ++
      indentedFields depth fields

end

/-- The compact text of a document. -/
def render (document : Json) : String := String.ofList (compact document)

/-- The indented text of a document. -/
def pretty (document : Json) : String := String.ofList (indented 0 document)

end CounterMesh.Json
