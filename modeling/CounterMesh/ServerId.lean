import CounterMesh.Bytes.Hex

/-!
# Server ids

Every node has an id of sixteen bytes. The id of zeros belongs to no node; it is
reserved for tombstones. The written form is hexadecimal with hyphens, and three
further forms are read: without hyphens, in braces, and as a resource name. The
scheme of a resource name, like its digits, is in either case.
-/

namespace CounterMesh

/-- The id of a node. -/
structure ServerId where
  bytes : Bytes
  length_bytes : bytes.length = 16
  deriving DecidableEq

namespace ServerId

@[ext] theorem ext {a b : ServerId} (h : a.bytes = b.bytes) : a = b := by
  cases a
  cases b
  cases h
  rfl

/-- The id that belongs to no node. -/
def nil : ServerId := ⟨List.replicate 16 0, rfl⟩

instance : Inhabited ServerId := ⟨nil⟩

/-- Whether this is the reserved id. -/
def isNil (id : ServerId) : Bool := id == nil

@[simp] theorem isNil_iff (id : ServerId) : id.isNil = true ↔ id = nil := by simp [isNil]

/-- The id with these bytes. -/
def ofBytes? (bytes : Bytes) : Option ServerId :=
  if h : bytes.length = 16 then some ⟨bytes, h⟩ else none

@[simp] theorem ofBytes?_bytes (id : ServerId) : ofBytes? id.bytes = some id := by
  simp [ofBytes?, id.length_bytes]

/-- An id made of random bytes, marked as such by its version and variant digits. -/
def ofRandom? (bytes : Bytes) : Option ServerId :=
  ofBytes? (bytes.zipIdx.map fun (byte, index) =>
    if index = 6 then byte &&& 0x0f ||| 0x40
    else if index = 8 then byte &&& 0x3f ||| 0x80
    else byte)

/-- The lengths of the groups of digits. -/
def groups : List Nat := [8, 4, 4, 4, 12]

/-- Writes a hyphen between groups of characters. -/
def hyphenate : (lengths : List Nat) → List Char → List Char
  | [], chars => chars
  | [_], chars => chars
  | n :: lengths, chars => chars.take n ++ '-' :: hyphenate lengths (chars.drop n)

/-- Takes the hyphens out from between groups of characters. -/
def unhyphenate? : (lengths : List Nat) → List Char → Option (List Char)
  | [], chars => if chars.isEmpty then some [] else none
  | [n], chars => if chars.length = n then some chars else none
  | n :: lengths, chars =>
    match chars.drop n with
    | '-' :: rest => (chars.take n ++ ·) <$> unhyphenate? lengths rest
    | _ => none

/-- The written form of an id. -/
def text (id : ServerId) : String :=
  String.ofList (hyphenate groups (id.bytes.flatMap Hex.digitsOf))

/-- The id of thirty-two digits. -/
def ofDigits? (digits : List Char) : Option ServerId :=
  match Hex.decode (String.ofList digits) with
  | .ok bytes => ofBytes? bytes
  | .error _ => none

/-- The id of hyphenated digits. -/
def ofHyphenated? (chars : List Char) : Option ServerId :=
  (unhyphenate? groups chars).bind ofDigits?

/-- The id that a text stands for in any of its forms. -/
def ofText? (text : String) : Option ServerId :=
  let chars := text.toList
  if chars.length = 32 then ofDigits? chars
  else if chars.length = 36 then ofHyphenated? chars
  else if chars.length = 38 ∧ chars.head? = some '\x7b' ∧ chars.getLast? = some '\x7d' then
    ofHyphenated? chars.tail.dropLast
  else if chars.length = 45 ∧ (chars.take 9).map Char.toLower = "urn:uuid:".toList then
    ofHyphenated? (chars.drop 9)
  else none

end ServerId

end CounterMesh
