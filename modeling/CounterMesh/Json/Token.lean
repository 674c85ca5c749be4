import CounterMesh.Json.Escape

/-!
# Tokens of JSON text

A text is cut into punctuation, names and literals; white space between them is
the blank, the tab and the two line ends. A string literal may hold every
character from the blank upwards and the escapes of the format, and a number
follows the format's grammar without leading zeros.
-/

namespace CounterMesh.Json

/-- A lexical element of JSON text. -/
inductive Token where
  | openArray
  | closeArray
  | openObject
  | closeObject
  | comma
  | colon
  | null
  | bool (value : Bool)
  | num (literal : List Char)
  | str (literal : List Char)
  deriving DecidableEq, Repr

namespace Token

/-- The literal up to the closing quote, and what follows the quote. -/
def string? : List Char → Option (List Char × List Char)
  | [] => none
  | '"' :: rest => some ([], rest)
  | '\\' :: 'u' :: a :: b :: c :: d :: rest =>
    match unit? a b c d, string? rest with
    | some _, some (literal, rest) => some ('\\' :: 'u' :: a :: b :: c :: d :: literal, rest)
    | _, _ => none
  | '\\' :: c :: rest =>
    match shortEscape? c, string? rest with
    | some _, some (literal, rest) => some ('\\' :: c :: literal, rest)
    | _, _ => none
  | '\\' :: [] => none
  | c :: rest =>
    if c.toNat < 32 then none
    else
      match string? rest with
      | some (literal, rest) => some (c :: literal, rest)
      | none => none

/-- One digit or more, and what follows. -/
def digits? (text : List Char) : Option (List Char × List Char) :=
  let (digits, rest) := text.span Char.isDigit
  if digits.isEmpty then none else some (digits, rest)

/-- The digits before the point: a zero alone or digits that start with another one. -/
def whole? : List Char → Option (List Char × List Char)
  | '0' :: rest => some (['0'], rest)
  | text => digits? text

/-- The part from the point on, which may be missing. -/
def fraction? : List Char → Option (List Char × List Char)
  | '.' :: rest => (digits? rest).map fun (digits, rest) => ('.' :: digits, rest)
  | rest => some ([], rest)

/-- The power of ten, which may be missing. -/
def exponent? : List Char → Option (List Char × List Char)
  | e :: rest =>
    if e = 'e' ∨ e = 'E' then
      match rest with
      | s :: digits =>
        if s = '+' ∨ s = '-' then
          (digits? digits).map fun (digits, rest) => (e :: s :: digits, rest)
        else (digits? rest).map fun (digits, rest) => (e :: digits, rest)
      | [] => none
    else some ([], e :: rest)
  | [] => some ([], [])

/-- The literal of a number without its sign, and what follows it. -/
def magnitude? (text : List Char) : Option (List Char × List Char) := do
  let (whole, rest) ← whole? text
  let (fraction, rest) ← fraction? rest
  let (exponent, rest) ← exponent? rest
  return (whole ++ fraction ++ exponent, rest)

/-- The first token of a text that does not start with white space, and what follows it. -/
def first? : List Char → Option (Token × List Char)
  | '[' :: rest => some (.openArray, rest)
  | ']' :: rest => some (.closeArray, rest)
  | '{' :: rest => some (.openObject, rest)
  | '}' :: rest => some (.closeObject, rest)
  | ',' :: rest => some (.comma, rest)
  | ':' :: rest => some (.colon, rest)
  | 'n' :: 'u' :: 'l' :: 'l' :: rest => some (.null, rest)
  | 't' :: 'r' :: 'u' :: 'e' :: rest => some (.bool true, rest)
  | 'f' :: 'a' :: 'l' :: 's' :: 'e' :: rest => some (.bool false, rest)
  | '"' :: rest => (string? rest).map fun (literal, rest) => (.str literal, rest)
  | '-' :: rest => (magnitude? rest).map fun (literal, rest) => (.num ('-' :: literal), rest)
  | text => (magnitude? text).map fun (literal, rest) => (.num literal, rest)

/-- Whether a character may stand between tokens. -/
def isSpace (c : Char) : Bool := c = ' ' || c = '\t' || c = '\n' || c = '\r'

/-- Cuts a text into at most `fuel` tokens and blanks. -/
def scanWith : (fuel : Nat) → List Char → Option (List Token)
  | _, [] => some []
  | 0, _ :: _ => none
  | fuel + 1, c :: rest =>
    if isSpace c then scanWith fuel rest
    else
      match first? (c :: rest) with
      | none => none
      | some (token, rest) => (token :: ·) <$> scanWith fuel rest

/-- The tokens of a text; no token is empty, so the length of the text bounds their number. -/
def scan (text : List Char) : Option (List Token) := scanWith text.length text

end Token

end CounterMesh.Json
