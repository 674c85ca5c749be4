import CounterMesh.Bytes.Word
import Mathlib.Algebra.Group.Int.Defs
import Mathlib.Algebra.GroupWithZero.Nat

/-!
# The order of numerals

Numerals of one width compare as the numbers they stand for, and different
numbers have different numerals. This is what makes an index over etags list
them in increasing order.
-/

namespace CounterMesh

namespace Bytes

theorem ofText_injective : Function.Injective ofText := by
  intro a b h
  have htext := congrArg text? h
  rw [text?_ofText, text?_ofText] at htext
  exact Option.some.inj htext

/-- Byte strings with fronts of one length compare by their fronts first. -/
theorem compare_append {a b : Bytes} (h : a.length = b.length) (c d : Bytes) :
    compare (a ++ c) (b ++ d) = (compare a b).then (compare c d) := by
  induction a generalizing b with
  | nil =>
      rw [List.length_eq_zero_iff.1 h.symm]
      rfl
  | cons x a ih =>
      cases b with
      | nil => cases h
      | cons y b =>
          have hlength : a.length = b.length := Nat.succ.inj h
          simp [ih hlength, Ordering.then_assoc]

end Bytes

namespace BigEndian

theorem encode_injective {width a b : Nat} (ha : a < capacity width) (hb : b < capacity width)
    (h : encode width a = encode width b) : a = b := by
  rw [← decode_encode ha, h, decode_encode hb]

private theorem compare_byte_lt_iff (a b : Nat) :
    compare (UInt8.ofNat a) (UInt8.ofNat b) = .lt ↔ a % 256 < b % 256 := by
  rw [Std.compare_eq_lt, UInt8.lt_iff_toNat_lt, UInt8.toNat_ofNat', UInt8.toNat_ofNat']

/-- Numerals of one width compare as their numbers. -/
theorem compare_encode_lt_iff {width a b : Nat} (ha : a < capacity width)
    (hb : b < capacity width) : compare (encode width a) (encode width b) = .lt ↔ a < b := by
  induction width generalizing a b with
  | zero =>
      rw [capacity] at ha hb
      have hab : a = b := by omega
      simp [hab]
  | succ width ih =>
      rw [capacity] at ha hb
      have ha' : a / 256 < capacity width := by omega
      have hb' : b / 256 < capacity width := by omega
      have hfront : encode width (a / 256) = encode width (b / 256) ↔ a / 256 = b / 256 :=
        ⟨encode_injective ha' hb', fun h => by rw [h]⟩
      rw [encode, encode, Bytes.compare_append (by simp), Ordering.then_eq_lt, ih ha' hb',
        Std.LawfulEqOrd.compare_eq_iff_eq, hfront, List.compare_cons_cons]
      have hlast : (compare (UInt8.ofNat a) (UInt8.ofNat b)).then (compare ([] : Bytes) []) = .lt ↔
          a % 256 < b % 256 := by
        rw [← compare_byte_lt_iff]
        simp
      rw [hlast]
      omega

end BigEndian

namespace Word

theorem big_injective : Function.Injective big := by
  intro a b h
  have hword := congrArg big? h
  rw [big?_big, big?_big] at hword
  exact Option.some.inj hword

theorem little_injective : Function.Injective little := by
  intro a b h
  have hword := congrArg little? h
  rw [little?_little, little?_little] at hword
  exact Option.some.inj hword

theorem ordered_injective : Function.Injective ordered := by
  intro a b h
  have hword := congrArg ordered? h
  rw [ordered?_ordered, ordered?_ordered] at hword
  exact Option.some.inj hword

/-- Unsigned words compare as their big-endian forms. -/
theorem compare_big_lt_iff (a b : UInt64) : compare (big a) (big b) = .lt ↔ a < b := by
  have hsize : ∀ n : UInt64, n.toNat < BigEndian.capacity 8 := fun n => n.toNat_lt
  rw [big, big, BigEndian.compare_encode_lt_iff (hsize a) (hsize b), UInt64.lt_iff_toNat_lt]

/-- Flipping the highest bit takes a number of the upper half to the lower one. -/
theorem two_pow_add_xor {m : Nat} (h : m < 2 ^ 63) : (2 ^ 63 + m) ^^^ 2 ^ 63 = m := by
  have hor : 2 ^ 63 + m = 2 ^ 63 ||| m := Nat.two_pow_add_eq_or_of_lt h 1
  rw [hor]
  refine Nat.eq_of_testBit_eq fun i => ?_
  rw [Nat.testBit_xor, Nat.testBit_or]
  by_cases hi : i = 63
  · rw [hi, Nat.testBit_two_pow_self, Nat.testBit_lt_two_pow h]
    rfl
  · rw [Nat.testBit_two_pow_of_ne (Ne.symm hi), Bool.false_or, Bool.xor_false]

/-- The ordered form of a signed word is the numeral of its distance from the least one. -/
theorem toNat_xor_top (n : Int64) :
    ((n.toUInt64 ^^^ 0x8000000000000000).toNat : Int) = n.toInt + 2 ^ 63 := by
  have hint : n.toInt = n.toBitVec.toInt := rfl
  have hnat : n.toUInt64.toNat = n.toBitVec.toNat := rfl
  have htop : (0x8000000000000000 : UInt64).toNat = 2 ^ 63 := rfl
  have hlt := n.toBitVec.isLt
  rw [UInt64.toNat_xor, hint, BitVec.toInt_eq_toNat_cond, hnat, htop]
  by_cases hsmall : n.toBitVec.toNat < 2 ^ 63
  · have hflip : n.toBitVec.toNat ^^^ 2 ^ 63 = 2 ^ 63 + n.toBitVec.toNat := by
      calc n.toBitVec.toNat ^^^ 2 ^ 63
        _ = (2 ^ 63 + n.toBitVec.toNat) ^^^ 2 ^ 63 ^^^ 2 ^ 63 := by rw [two_pow_add_xor hsmall]
        _ = 2 ^ 63 + n.toBitVec.toNat := by rw [Nat.xor_assoc, Nat.xor_self, Nat.xor_zero]
    omega
  · obtain ⟨m, hm⟩ := Nat.exists_eq_add_of_le (Nat.le_of_not_lt hsmall)
    have hflip : n.toBitVec.toNat ^^^ 2 ^ 63 = m := hm ▸ two_pow_add_xor (by omega)
    omega

/-- Signed words compare as their ordered forms. -/
theorem compare_ordered_lt_iff (a b : Int64) : compare (ordered a) (ordered b) = .lt ↔ a < b := by
  have ha := toNat_xor_top a
  have hb := toNat_xor_top b
  rw [ordered, ordered, compare_big_lt_iff, UInt64.lt_iff_toNat_lt, Int64.lt_iff_toInt_lt]
  omega

/-- The greater of two words. -/
instance lawfulOrderMax : Std.LawfulOrderMax UInt64 where
  max_le_iff a b c := by
    show (if a ≤ b then b else a) ≤ c ↔ a ≤ c ∧ b ≤ c
    split
    · next h => exact ⟨fun hc => ⟨UInt64.le_trans h hc, hc⟩, And.right⟩
    · next h =>
      have hle : b ≤ a := UInt64.le_of_lt (UInt64.not_le.1 h)
      exact ⟨fun hc => ⟨hc, UInt64.le_trans hle hc⟩, And.left⟩
  max_eq_or a b := by
    show (if a ≤ b then b else a) = a ∨ (if a ≤ b then b else a) = b
    split
    · exact .inr rfl
    · exact .inl rfl

theorem max_comm (a b : UInt64) : max a b = max b a :=
  UInt64.le_antisymm (Std.max_le_iff.2 ⟨Std.right_le_max, Std.left_le_max⟩)
    (Std.max_le_iff.2 ⟨Std.right_le_max, Std.left_le_max⟩)

/-- What starts with a word has no other word in front. -/
theorem big_prefix_append_iff (a b : UInt64) (rest : Bytes) :
    big a <+: big b ++ rest ↔ b = a := by
  constructor
  · intro h
    have hfront := List.prefix_of_prefix_length_le h (List.prefix_append _ _) (by simp)
    exact (big_injective (hfront.eq_of_length (by simp))).symm
  · rintro rfl
    exact List.prefix_append _ _

/-- What ends in a word has no other word at the end. -/
theorem big_suffix_append_iff (a b : UInt64) (front : Bytes) :
    big a <:+ front ++ big b ↔ b = a := by
  constructor
  · intro h
    have hback := List.suffix_of_suffix_length_le h (List.suffix_append _ _) (by simp)
    exact (big_injective (hback.eq_of_length (by simp))).symm
  · rintro rfl
    exact List.suffix_append _ _

/-- A number that fits is its own nearest word. -/
theorem toInt_clamp {n : Nat} (h : (n : Int) ≤ Int64.maxValue.toInt) : (clamp n).toInt = n := by
  have hmax : Int64.maxValue.toInt = 2 ^ 63 - 1 := rfl
  rw [clamp]
  split
  · omega
  · rw [Int64.toInt_ofNat_of_lt (by omega)]

/-- The word nearest to a number is not negative. -/
theorem toInt_clamp_nonneg (n : Nat) : 0 ≤ (clamp n).toInt := by
  by_cases h : (n : Int) ≤ Int64.maxValue.toInt
  · rw [toInt_clamp h]
    exact Int.natCast_nonneg n
  · rw [clamp, if_pos (by omega)]
    decide

/-- The difference of words that are not negative is a word. -/
theorem toInt_sub_of_nonneg {a b : Int64} (ha : 0 ≤ a.toInt) (hb : 0 ≤ b.toInt) :
    (a - b).toInt = a.toInt - b.toInt := by
  have ha' := a.toInt_lt
  have hb' := b.toInt_lt
  rw [Int64.toInt_sub, Int.bmod_eq_of_le_mul_two (by omega) (by omega)]

end Word

end CounterMesh
