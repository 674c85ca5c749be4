import CounterMesh.Text.Blank

/-!
# Aligned columns

A table of texts: every column is as wide as its widest cell, two blanks stand
between columns, and no line ends in a blank.
-/

namespace CounterMesh.Columns

/-- A cell filled up with blanks to a width. -/
def pad (width : Nat) (cell : String) : List Char :=
  cell.toList ++ List.replicate (width - cell.length) ' '

/-- One line of a table. -/
def line (widths : List Nat) (cells : List String) : String :=
  let padded := List.zipWith pad widths cells
  String.ofList (Blank.trimEnd ([' ', ' '].intercalate padded))

/-- The widths of the columns. -/
def widths (header : List String) (rows : List (List String)) : List Nat :=
  rows.foldl (fun widths row => List.zipWith (fun width cell => max width cell.length) widths row)
    (header.map String.length)

/-- The lines of a table, or the line `none` when it has no rows. -/
def render (header : List String) (rows : List (List String)) (none : String) : List String :=
  if rows.isEmpty then [none]
  else
    let widths := widths header rows
    line widths header :: rows.map (line widths)

end CounterMesh.Columns
