import CounterMesh.Text.Printable

/-!
# Quoted text

A text between quotes as it is shown in messages: the quotes that surround it,
backslashes and the usual control characters are escaped by a backslash, and
other characters that are not printed by their number. A text stands between
double quotes and a single character between single ones.
-/

namespace CounterMesh.Quoted

/-- How a character is written between two marks. -/
def escapeChar (mark c : Char) : List Char :=
  if c = mark then ['\\', mark]
  else
    match c with
    | '\\' => ['\\', '\\']
    | '\x00' => ['\\', '0']
    | '\t' => ['\\', 't']
    | '\n' => ['\\', 'n']
    | '\r' => ['\\', 'r']
    | c =>
      if Printable.isPrintable c then [c]
      else ['\\', 'u', '\x7b'] ++ Nat.toDigits 16 c.toNat ++ ['\x7d']

/-- The characters between two marks. -/
def enclose (mark : Char) (text : List Char) : String :=
  String.ofList (mark :: text.flatMap (escapeChar mark) ++ [mark])

/-- The quoted form of a text. -/
def quote (text : String) : String := enclose '"' text.toList

/-- The quoted form of a character. -/
def quoteChar (c : Char) : String := enclose '\'' [c]

end CounterMesh.Quoted
