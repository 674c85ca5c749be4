/-!
# Blank characters

The characters with the property White_Space, among them the blanks of other
widths and the separators of lines and paragraphs.
-/

namespace CounterMesh.Blank

/-- The closed ranges of blank code points. -/
def ranges : List (Nat × Nat) :=
  [(0x09, 0x0d), (0x20, 0x20), (0x85, 0x85), (0xa0, 0xa0), (0x1680, 0x1680),
   (0x2000, 0x200a), (0x2028, 0x2029), (0x202f, 0x202f), (0x205f, 0x205f), (0x3000, 0x3000)]

/-- Whether a character is blank. -/
def isBlank (c : Char) : Bool :=
  ranges.any fun (low, high) => decide (low ≤ c.toNat ∧ c.toNat ≤ high)

/-- A text without the blanks at its end. -/
def trimEnd (text : List Char) : List Char := (text.reverse.dropWhile isBlank).reverse

/-- Whether a text holds nothing but blanks. -/
def isBlankText (text : String) : Bool := text.toList.all isBlank

end CounterMesh.Blank
