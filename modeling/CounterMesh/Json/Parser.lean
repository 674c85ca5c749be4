import CounterMesh.Json
import CounterMesh.Json.Token

/-!
# Reading JSON text

A text is a document when its tokens form exactly one value. Commas separate
items and fields and never end a list.
-/

namespace CounterMesh.Json

mutual

/-- The value that starts a list of tokens, and the tokens after it. -/
def value? : (fuel : Nat) → List Token → Option (Json × List Token)
  | 0, _ => none
  | _, [] => none
  | fuel + 1, token :: rest =>
    match token with
    | .null => some (.null, rest)
    | .bool value => some (.bool value, rest)
    | .num literal => some (.num literal, rest)
    | .str literal => some (.str literal, rest)
    | .openArray =>
      match rest with
      | .closeArray :: rest => some (.arr [], rest)
      | rest => (items? fuel rest).map fun (items, rest) => (.arr items, rest)
    | .openObject =>
      match rest with
      | .closeObject :: rest => some (.obj [], rest)
      | rest => (fields? fuel rest).map fun (fields, rest) => (.obj fields, rest)
    | _ => none

/-- The items of an array that is open and not empty, and the tokens after it. -/
def items? : (fuel : Nat) → List Token → Option (List Json × List Token)
  | 0, _ => none
  | fuel + 1, tokens =>
    match value? fuel tokens with
    | some (item, .closeArray :: rest) => some ([item], rest)
    | some (item, .comma :: rest) =>
      (items? fuel rest).map fun (items, rest) => (item :: items, rest)
    | _ => none

/-- The fields of an object that is open and not empty, and the tokens after it. -/
def fields? : (fuel : Nat) → List Token → Option (List (List Char × Json) × List Token)
  | 0, _ => none
  | fuel + 1, .str key :: .colon :: tokens =>
    match value? fuel tokens with
    | some (value, .closeObject :: rest) => some ([(key, value)], rest)
    | some (value, .comma :: rest) =>
      (fields? fuel rest).map fun (fields, rest) => ((key, value) :: fields, rest)
    | _ => none
  | _, _ => none

end

/-- The document of a list of tokens; every two nested calls consume a token. -/
def ofTokens? (tokens : List Token) : Option Json :=
  match value? (2 * tokens.length) tokens with
  | some (document, []) => some document
  | _ => none

/-- The document that a text holds. -/
def parse? (text : String) : Option Json := do
  ofTokens? (← Token.scan text.toList)

end CounterMesh.Json
