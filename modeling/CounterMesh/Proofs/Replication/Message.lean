import CounterMesh.Proofs.Bytes.Hex
import CounterMesh.Proofs.Json.Values
import CounterMesh.Proofs.Json.Written
import CounterMesh.Replication.Message
import Mathlib.Algebra.GroupWithZero.Nat

/-!
# Messages on the wire

A message is written as text and read back as it was: names of any characters,
ids in their hyphenated form, values and etags over their whole ranges. The text
may be compact or indented.
-/

namespace CounterMesh

namespace ServerId

/-- The hyphens between groups that take up all characters are found again. -/
theorem unhyphenate?_hyphenate (n : Nat) (lengths : List Nat) {chars : List Char}
    (h : chars.length = n + lengths.sum) :
    unhyphenate? (n :: lengths) (hyphenate (n :: lengths) chars) = some chars := by
  induction lengths generalizing n chars with
  | nil =>
      have hlength : chars.length = n := h
      rw [hyphenate, unhyphenate?, if_pos hlength]
  | cons m lengths ih =>
      rw [List.sum_cons] at h
      have htake : (chars.take n).length = n := by
        rw [List.length_take]
        omega
      have hdrop : (chars.drop n).length = m + lengths.sum := by
        rw [List.length_drop]
        omega
      rw [hyphenate, unhyphenate?, List.drop_left' htake, List.take_left' htake]
      · simp only [ih m hdrop, Option.map_eq_map, Option.map_some, List.take_append_drop]
      · nofun
      · nofun

theorem length_hyphenate (n : Nat) (lengths : List Nat) {chars : List Char}
    (h : chars.length = n + lengths.sum) :
    (hyphenate (n :: lengths) chars).length = chars.length + lengths.length := by
  induction lengths generalizing n chars with
  | nil => rfl
  | cons m lengths ih =>
      rw [List.sum_cons] at h
      have hdrop : (chars.drop n).length = m + lengths.sum := by
        rw [List.length_drop]
        omega
      rw [hyphenate, List.length_append, List.length_cons, ih m hdrop, List.length_take,
        List.length_drop, List.length_cons]
      · omega
      · nofun

/-- An id is read back from its written form. -/
@[simp] theorem ofText?_text (id : ServerId) : ofText? id.text = some id := by
  have hdigits : (id.bytes.flatMap Hex.digitsOf).length = 8 + [4, 4, 4, 12].sum := by
    rw [List.length_flatMap]
    simp [Hex.digitsOf, id.length_bytes]
  have hlength : id.text.toList.length = 36 := by
    rw [text, String.toList_ofList, groups, length_hyphenate 8 _ hdigits, hdigits]
    rfl
  have hread : ofDigits? (id.bytes.flatMap Hex.digitsOf) = some id := by
    rw [ofDigits?, ← Hex.encode, Hex.decode_encode]
    exact ofBytes?_bytes id
  have hhyphens : ofHyphenated? id.text.toList = some id := by
    rw [ofHyphenated?, text, String.toList_ofList, groups, unhyphenate?_hyphenate 8 _ hdigits,
      Option.bind_some, hread]
  rw [ofText?, if_neg (by omega), if_pos hlength, hhyphens]

end ServerId

namespace Json

@[simp] theorem asServerId?_toJson (id : ServerId) : asServerId? id.toJson = some id := by
  rw [asServerId?, ServerId.toJson, asText?_text, Option.bind_some, ServerId.ofText?_text]

@[simp] theorem asSign?_toJson (sign : Sign) : asSign? sign.toJson = some sign := by
  have hname : asVariant? sign.toJson = some sign.text := textOf?_escape sign.text
  rw [asSign?, hname]
  cases sign <;> rfl

theorem integerOf?_ofNat (n : Nat) : integerOf? (Decimal.ofNat n) = some (n : Int) := by
  have hfirst : ∀ digits, Decimal.ofNat n ≠ '-' :: digits := by
    intro digits h
    have hdigit := Token.isDigit_of_mem_ofNat (h ▸ List.mem_cons_self : '-' ∈ Decimal.ofNat n)
    cases hdigit
  rw [integerOf?]
  · rw [Decimal.nat?_ofNat]
    rfl
  · exact fun digits h => hfirst digits h

/-- An integer is read back from its document. -/
theorem asInteger?_int (n : Int) : asInteger? (int n) = some n := by
  cases n with
  | ofNat n => exact integerOf?_ofNat n
  | negSucc n =>
      rw [int, asInteger?, Decimal.ofInt, integerOf?, Decimal.nat?_ofNat, Option.bind_some,
        if_neg (Nat.succ_ne_zero n)]
      rfl

@[simp] theorem asSigned?_signed (n : Int64) : asSigned? (signed n) = some n := by
  have hmin := n.minValue_le_toInt
  have hmax := n.toInt_le
  rw [asSigned?, signed, asInteger?_int, Option.bind_some, Word.ofInt?, Int64.ofInt_toInt, if_pos]
  exact ⟨hmin, hmax⟩

theorem asNatBelow?_nat {bound n : Nat} (h : n < bound) : asNatBelow? bound (nat n) = some n := by
  have hinteger : asInteger? (nat n) = some (n : Int) := integerOf?_ofNat n
  rw [asNatBelow?, hinteger, Option.bind_eq_bind, Option.bind_some,
    if_pos ⟨Int.natCast_nonneg n, Int.ofNat_lt.2 h⟩, Int.toNat_natCast]

@[simp] theorem asWord?_word (n : UInt64) : asWord? (word n) = some n := by
  rw [asWord?, word, asNatBelow?_nat n.toNat_lt_size, Option.map_some, UInt64.ofNat_toNat]

end Json

namespace FeedEntry

theorem written_toJson (e : FeedEntry) : e.toJson.Written := by
  refine .record fun field hfield => ?_
  simp only [List.mem_cons, List.not_mem_nil, or_false] at hfield
  rcases hfield with rfl | rfl | rfl | rfl | rfl | rfl
  · exact .text _
  · exact .text _
  · exact .text _
  · exact .text _
  · exact .int _
  · exact .nat _

theorem ofJson?_toJson (e : FeedEntry) : ofJson? e.toJson = some e := by
  have hrecord : e.toJson.asRecord? ["group", "name", "server_id", "sign", "value", "etag"] =
      some [some (.text e.group), some (.text e.name), some e.serverId.toJson,
        some e.sign.toJson, some (.signed e.value), some (.word e.etag)] :=
    Json.asRecord?_record _ _
  rw [ofJson?, hrecord]
  simp only [Option.bind_eq_bind, Option.bind_some, Json.asText?_text, Json.asServerId?_toJson,
    Json.asSign?_toJson, Json.asSigned?_signed, Json.asWord?_word]
  rfl

end FeedEntry

namespace Message

theorem written_toJson (m : Message) : m.toJson.Written := by
  refine .record fun field hfield => ?_
  simp only [List.mem_cons, List.not_mem_nil, or_false] at hfield
  rcases hfield with rfl | rfl
  · exact .text _
  · refine .arr fun item hitem => ?_
    obtain ⟨e, _, rfl⟩ := List.mem_map.1 hitem
    exact e.written_toJson

theorem ofJson?_toJson (m : Message) : ofJson? m.toJson = some m := by
  have hrecord : m.toJson.asRecord? ["server_id", "counters"] =
      some [some m.serverId.toJson, some (.arr (m.entries.map FeedEntry.toJson))] :=
    Json.asRecord?_record _ _
  have hlist : Json.asList? FeedEntry.ofJson? (.arr (m.entries.map FeedEntry.toJson)) =
      some m.entries := by
    have hread : ∀ e ∈ m.entries, FeedEntry.ofJson? e.toJson = some (id e) :=
      fun e _ => e.ofJson?_toJson
    rw [Json.asList?_map hread, List.map_id]
  rw [ofJson?, hrecord]
  simp only [Option.bind_eq_bind, Option.bind_some, Json.asServerId?_toJson, hlist]
  rfl

/-- A message is read back from its text, however the text is spaced. -/
theorem parse?_spaced (m : Message) (spacing : Json.Spacing) :
    parse? (String.ofList (Json.spaced spacing 0 m.toJson)) = some m := by
  rw [parse?, m.written_toJson.parse? spacing, Option.bind_some, ofJson?_toJson]

theorem parse?_render (m : Message) : parse? m.toJson.render = some m := by
  rw [parse?, Json.parse?_render m.written_toJson, Option.bind_some, ofJson?_toJson]

end Message

end CounterMesh
