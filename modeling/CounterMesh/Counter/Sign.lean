import CounterMesh.Error

/-!
# Signs

A counter keeps, for every node, one sum of increments and one of decrements.
The sign says which of the two a slot holds.
-/

namespace CounterMesh

/-- The direction of a slot. -/
inductive Sign where
  | positive
  | negative
  deriving DecidableEq, Repr

namespace Sign

/-- The byte that ends the key of a slot. -/
def byte : Sign → UInt8
  | .positive => 0x2b
  | .negative => 0x2d

/-- The sign with this byte. -/
def ofByte? (byte : UInt8) : Option Sign :=
  if byte = 0x2b then some .positive else if byte = 0x2d then some .negative else none

@[simp] theorem ofByte?_byte (sign : Sign) : ofByte? sign.byte = some sign := by
  cases sign <;> rfl

theorem ofByte?_eq_some_iff {byte : UInt8} {sign : Sign} :
    ofByte? byte = some sign ↔ byte = sign.byte := by
  constructor
  · intro h
    unfold ofByte? at h
    split at h
    · next hb => cases h; exact hb
    · split at h
      · next hb => cases h; exact hb
      · cases h
  · rintro rfl
    exact ofByte?_byte sign

/-- The sign of a delta; zero is positive. -/
def ofDelta (delta : Int64) : Sign := if 0 ≤ delta then .positive else .negative

/-- The symbol of a sign. -/
def text : Sign → String
  | .positive => "+"
  | .negative => "-"

/-- The sign with this symbol. A text of one other byte is an unknown sign. -/
def ofText (text : String) : Except Error Sign :=
  match Bytes.ofText text with
  | [byte] =>
    match ofByte? byte with
    | some sign => .ok sign
    | none => .error (.counter (.unknownSign byte))
  | _ => .error (.counter (.invalidArgument (.badSign text)))

end Sign

end CounterMesh
