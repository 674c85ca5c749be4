/-!
# JSON documents

A document keeps the literals of its numbers and strings as they were written.
What a literal stands for is asked only where a value of that kind is expected,
so that parts of a document which nobody reads need no meaning. Objects keep
their fields in order, repetitions included.
-/

namespace CounterMesh

/-- A JSON document. -/
inductive Json where
  | null
  | bool (value : Bool)
  /-- A number, as written. -/
  | num (literal : List Char)
  /-- A string, as written between its quotes. -/
  | str (literal : List Char)
  | arr (items : List Json)
  | obj (fields : List (List Char × Json))
  deriving Inhabited

end CounterMesh
