/-!
# Byte strings

Keys and values of the store are byte strings, compared byte by byte from the
front. Names are texts, stored in their UTF-8 form.
-/

namespace CounterMesh

/-- A byte string; `compare` orders byte strings lexicographically. -/
abbrev Bytes := List UInt8

namespace Bytes

/-- The UTF-8 form of a text. -/
def ofText (text : String) : Bytes := text.toUTF8.data.toList

/-- The text with this UTF-8 form; byte strings that are not UTF-8 have none. -/
def text? (bytes : Bytes) : Option String := String.fromUTF8? ⟨bytes.toArray⟩

@[simp] theorem text?_ofText (text : String) : text? (ofText text) = some text := by
  have h : (⟨(ofText text).toArray⟩ : ByteArray) = text.toUTF8 := rfl
  rw [text?, h]
  simp only [String.fromUTF8?, String.toUTF8_eq_toByteArray, dif_pos text.isValidUTF8]
  rfl

/-- The text of a byte string of ASCII characters. -/
def ofAscii (text : String) : Bytes := text.toList.map fun c => UInt8.ofNat c.toNat

end Bytes

end CounterMesh
