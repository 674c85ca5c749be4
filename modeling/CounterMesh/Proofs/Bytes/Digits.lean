import CounterMesh.Proofs.Bytes.Hex
import Mathlib.Tactic.SplitIfs

/-!
# The texts that are hexadecimal

The texts that are read as byte strings are those of an even number of digits, of
either case. A character that is no digit does not stand for one in UTF-8 either:
the first byte of a longer form is no digit.
-/

namespace CounterMesh

namespace Hex

/-- A hexadecimal digit of either case. -/
def IsDigit (c : Char) : Prop :=
  '0' ≤ c ∧ c ≤ '9' ∨ 'a' ≤ c ∧ c ≤ 'f' ∨ 'A' ≤ c ∧ c ≤ 'F'

theorem isDigit_iff {c : Char} : IsDigit c ↔
    48 ≤ c.val.toNat ∧ c.val.toNat ≤ 57 ∨ 97 ≤ c.val.toNat ∧ c.val.toNat ≤ 102 ∨
      65 ≤ c.val.toNat ∧ c.val.toNat ≤ 70 := Iff.rfl

instance : DecidablePred IsDigit := fun _ => decidable_of_iff' _ isDigit_iff

/-- Hexadecimal text: an even number of digits. -/
def IsText (text : String) : Prop := text.length % 2 = 0 ∧ ∀ c ∈ text.toList, IsDigit c

-- The characters of the text are tried, not all characters.
instance : DecidablePred IsText := fun text =>
  have : Decidable (∀ c ∈ text.toList, IsDigit c) := List.decidableBAll _ _
  inferInstanceAs (Decidable (text.length % 2 = 0 ∧ ∀ c ∈ text.toList, IsDigit c))

theorem isSome_digitValue?_iff {byte : UInt8} : (digitValue? byte).isSome = true ↔
    48 ≤ byte.toNat ∧ byte.toNat ≤ 57 ∨ 97 ≤ byte.toNat ∧ byte.toNat ≤ 102 ∨
      65 ≤ byte.toNat ∧ byte.toNat ≤ 70 := by
  simp only [digitValue?, UInt8.le_iff_toNat_le, UInt8.reduceToNat]
  split_ifs <;> simp only [Option.isSome_some, Option.isSome_none, true_iff, false_iff,
    Bool.false_eq_true] <;> omega

/-- The UTF-8 form of a digit is one byte. -/
theorem utf8EncodeChar_of_isDigit {c : Char} (h : IsDigit c) :
    String.utf8EncodeChar c = [UInt8.ofNat c.val.toNat] := by
  rw [isDigit_iff] at h
  rw [String.utf8EncodeChar]
  exact if_pos (by omega)

/-- The UTF-8 form of a character consists of digits exactly if the character is one: the first
byte of a longer form is none. -/
theorem isDigit_iff_utf8 {c : Char} :
    (∀ byte ∈ String.utf8EncodeChar c, (digitValue? byte).isSome = true) ↔ IsDigit c := by
  constructor
  · intro h
    rw [String.utf8EncodeChar] at h
    rw [isDigit_iff]
    have hvalid : c.val.toNat < 1114112 := by
      rcases c.valid with hlow | hhigh
      · exact Nat.lt_trans hlow (by decide)
      · exact hhigh.2
    split_ifs at h with h1 h2 h3 <;>
      have hfirst := isSome_digitValue?_iff.1 (h _ List.mem_cons_self) <;>
      rw [UInt8.toNat_ofNat'] at hfirst <;> omega
  · intro h byte hbyte
    rw [utf8EncodeChar_of_isDigit h, List.mem_singleton] at hbyte
    rw [isDigit_iff] at h
    rw [hbyte, isSome_digitValue?_iff, UInt8.toNat_ofNat']
    omega

/-- Pairs of bytes are read exactly if all of them are digits. -/
theorem exists_decodePairs_iff {bytes : Bytes} (heven : bytes.length % 2 = 0) (index : Nat) :
    (∃ read, decodePairs index bytes = .ok read) ↔
      ∀ byte ∈ bytes, (digitValue? byte).isSome = true := by
  induction index, bytes using decodePairs.induct with
  | case1 index high low rest hhigh => simp [decodePairs, hhigh]
  | case2 index high low rest _ hhigh hlow => simp [decodePairs, hhigh, hlow]
  | case3 index high low rest h l hhigh hlow ih =>
      have hrest : rest.length % 2 = 0 := by
        simp only [List.length_cons] at heven
        omega
      simp only [decodePairs, hhigh, hlow, List.forall_mem_cons, Option.isSome_some, true_and,
        ← ih hrest]
      cases decodePairs (index + 2) rest with
      | error fault => simp [Functor.map, Except.map]
      | ok read => simp [Functor.map, Except.map]
  | case4 bytes index hpair =>
      rcases bytes with _ | ⟨high, _ | ⟨low, rest⟩⟩
      · simp [decodePairs]
      · cases heven
      · exact absurd rfl (hpair high low rest)

theorem ofText_eq_flatMap (text : String) :
    Bytes.ofText text = text.toList.flatMap String.utf8EncodeChar := by
  rw [← Bytes.ofText_ofList, String.ofList_toList]

/-- A text of digits has as many bytes as characters. -/
theorem length_ofText {text : String} (h : ∀ c ∈ text.toList, IsDigit c) :
    (Bytes.ofText text).length = text.length := by
  rw [ofText_eq_flatMap, List.length_flatMap, ← String.length_toList]
  have hone : text.toList.map (fun c => (String.utf8EncodeChar c).length) =
      text.toList.map fun _ => 1 :=
    List.map_congr_left fun c hc => by
      rw [utf8EncodeChar_of_isDigit (h c hc), List.length_singleton]
  rw [hone, List.map_const', List.sum_replicate_nat, Nat.mul_one]

/-- A text is read exactly if it consists of an even number of digits. -/
theorem exists_decode_iff {text : String} : (∃ bytes, decode text = .ok bytes) ↔ IsText text := by
  have hdigits : (∀ byte ∈ Bytes.ofText text, (digitValue? byte).isSome = true) ↔
      ∀ c ∈ text.toList, IsDigit c := by
    rw [ofText_eq_flatMap]
    simp only [List.forall_mem_flatMap, isDigit_iff_utf8]
  rw [decode]
  by_cases hodd : (Bytes.ofText text).length % 2 = 1
  · refine iff_of_false ?_ ?_
    · simp [hodd]
    · rintro ⟨heven, h⟩
      rw [length_ofText h] at hodd
      omega
  · have heven : (Bytes.ofText text).length % 2 = 0 := by omega
    simp only [hodd, if_false, exists_decodePairs_iff heven, hdigits, IsText]
    exact ⟨fun h => ⟨length_ofText h ▸ heven, h⟩, And.right⟩

end Hex

end CounterMesh
