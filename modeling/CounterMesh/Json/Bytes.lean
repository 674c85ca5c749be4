import CounterMesh.Bytes
import CounterMesh.Json.Parser

/-!
# Documents in byte strings

A stored document need not be UTF-8 throughout. Between the quotes of a string
that nobody decodes any bytes may stand; everywhere else a byte that belongs to
no character is a fault.
-/

namespace CounterMesh.Json

/-- What is read for a byte that belongs to no character: a part of a string that stands for no
text, since it ends in half of a surrogate pair, and no part of anything but a string. -/
def stray : List Char := ['\ufffd', '\\', 'u', 'd', 'c', '0', '0']

/-- The character that starts with `first`, and how many of the bytes behind it belong to it. -/
def leading? (first : UInt8) (rest : Bytes) : Option (Char × Nat) :=
  [0, 1, 2, 3].findSome? fun count =>
    match (Bytes.text? (first :: rest.take count)).map String.toList with
    | some [c] => some (c, count)
    | _ => none

/-- The characters of a byte string, with stray bytes marked. The first `skip` bytes belong to a
character that was read before. -/
def readable : (skip : Nat) → Bytes → List Char
  | _, [] => []
  | skip + 1, _ :: rest => readable skip rest
  | 0, first :: rest =>
    match leading? first rest with
    | some (c, count) => c :: readable count rest
    | none => stray ++ readable 0 rest

/-- The document that a byte string holds. -/
def parseBytes? (bytes : Bytes) : Option Json :=
  match Bytes.text? bytes with
  | some text => parse? text
  | none => parse? (String.ofList (readable 0 bytes))

@[simp] theorem parseBytes?_ofText (text : String) :
    parseBytes? (Bytes.ofText text) = parse? text := by
  simp [parseBytes?]

end CounterMesh.Json
