import CounterMesh.Bytes.Hex

/-!
# Hexadecimal text is read back

The digits of a byte are ASCII characters, so that they are single bytes of the
UTF-8 form of a text. Reading a pair of them gives the byte again. In particular
different byte strings have different texts.
-/

namespace CounterMesh

theorem Bytes.ofText_ofList (chars : List Char) :
    ofText (String.ofList chars) = chars.flatMap String.utf8EncodeChar := by
  rw [ofText, String.toUTF8_eq_toByteArray, String.toByteArray_ofList, List.utf8Encode.eq_1,
    List.toList_data_toByteArray]

namespace Hex

/-- The byte of a digit in the UTF-8 form of a text. -/
def digitByte (n : Nat) : UInt8 := (digit n).val.toUInt8

theorem utf8EncodeChar_digit {n : Nat} (h : n < 16) :
    String.utf8EncodeChar (digit n) = [digitByte n] := by
  revert n
  decide

theorem digitValue?_digitByte {n : Nat} (h : n < 16) : digitValue? (digitByte n) = some n := by
  revert n
  decide

theorem ofText_encode (bytes : Bytes) : Bytes.ofText (encode bytes) =
    bytes.flatMap fun byte => [digitByte (byte.toNat / 16), digitByte (byte.toNat % 16)] := by
  rw [encode, Bytes.ofText_ofList, List.flatMap_assoc]
  refine congrArg (bytes.flatMap ·) (funext fun byte => ?_)
  have hbyte : byte.toNat < 256 := byte.toNat_lt
  rw [digitsOf, List.flatMap_cons, List.flatMap_singleton, utf8EncodeChar_digit (by omega),
    utf8EncodeChar_digit (by omega)]
  rfl

theorem decodePairs_digitBytes (bytes : Bytes) (index : Nat) :
    decodePairs index (bytes.flatMap fun byte =>
      [digitByte (byte.toNat / 16), digitByte (byte.toNat % 16)]) = .ok bytes := by
  induction bytes generalizing index with
  | nil => rfl
  | cons byte rest ih =>
      have hbyte : byte.toNat < 256 := byte.toNat_lt
      have hvalue : UInt8.ofNat (byte.toNat / 16 * 16 + byte.toNat % 16) = byte := by
        rw [Nat.div_add_mod', UInt8.ofNat_toNat]
      rw [List.flatMap_cons, List.cons_append, List.cons_append, List.nil_append, decodePairs,
        digitValue?_digitByte (by omega), digitValue?_digitByte (by omega)]
      simp only [ih, hvalue]
      rfl

/-- Every byte string is read back from its text. -/
theorem decode_encode (bytes : Bytes) : decode (encode bytes) = .ok bytes := by
  have hlength : (bytes.flatMap fun byte =>
      [digitByte (byte.toNat / 16), digitByte (byte.toNat % 16)]).length % 2 = 0 := by
    rw [List.length_flatMap]
    simp only [List.length_cons, List.length_nil, List.map_const', List.sum_replicate_nat]
    exact Nat.mul_mod_left _ 2
  rw [decode, ofText_encode]
  simp only [hlength, decodePairs_digitBytes]
  rfl

theorem encode_injective : Function.Injective encode := by
  intro a b h
  have hdecode := decode_encode a
  rw [h, decode_encode] at hdecode
  exact (Except.ok.inj hdecode).symm

end Hex

end CounterMesh
