import CounterMesh.Json.Decode
import CounterMesh.Json.Token

/-!
# Escaped texts are read back

Every character is written as itself or as an escape, and is read back from what
was written, whatever follows it. The quote and the backslash are always
escaped, so that a string literal ends at its closing quote.
-/

namespace CounterMesh.Json

theorem hexValue?_digitChar {n : Nat} (h : n < 16) : hexValue? (Nat.digitChar n) = some n := by
  revert n
  decide

/-- A control character is written by its number. -/
theorem unit?_control {n : Nat} (h : n < 32) :
    unit? '0' '0' (Nat.digitChar (n / 16)) (Nat.digitChar (n % 16)) = some n := by
  have hhigh : hexValue? (Nat.digitChar (n / 16)) = some (n / 16) := hexValue?_digitChar (by omega)
  have hlow : hexValue? (Nat.digitChar (n % 16)) = some (n % 16) := hexValue?_digitChar (by omega)
  have hzero : hexValue? '0' = some 0 := rfl
  rw [unit?, hzero, hhigh, hlow]
  simp only [Option.bind_eq_bind, Option.bind_some, Option.pure_def, Option.some.injEq]
  omega

theorem unescape_cons {c : Char} (h : c ≠ '\\') (rest : List Char) :
    unescape (c :: rest) = (c :: ·) <$> unescape rest := by
  rw [unescape]
  all_goals
    intros
    contradiction

theorem string?_cons {c : Char} (hquote : c ≠ '"') (hescape : c ≠ '\\') (hcontrol : ¬ c.toNat < 32)
    (rest : List Char) : Token.string? (c :: rest) =
      (Token.string? rest).map fun (literal, rest) => (c :: literal, rest) := by
  rw [Token.string?]
  · rw [if_neg hcontrol]
    cases Token.string? rest <;> rfl
  all_goals
    intros
    contradiction

theorem string?_shortEscape {c d : Char} (h : shortEscape? c = some d) (rest : List Char) :
    Token.string? ('\\' :: c :: rest) =
      (Token.string? rest).map fun (literal, rest) => ('\\' :: c :: literal, rest) := by
  rw [Token.string?, h]
  · cases Token.string? rest <;> rfl
  · rintro _ _ _ _ _ rfl
    cases h

/-- A character is read back from how it is written. -/
theorem unescape_escapeChar (c : Char) (rest : List Char) :
    unescape (escapeChar c ++ rest) = (c :: ·) <$> unescape rest := by
  unfold escapeChar
  split
  case h_8 =>
    split
    · next hcontrol =>
      have hunit : c.toNat < 0xD800 := by omega
      simp only [List.cons_append, List.nil_append]
      rw [unescape, unit?_control hcontrol]
      simp only [if_pos (Or.inl hunit), Char.ofNat_toNat]
    · exact unescape_cons (by assumption) rest
  all_goals rfl

/-- A string literal goes on behind a character as it is written. -/
theorem string?_escapeChar (c : Char) (rest : List Char) : Token.string? (escapeChar c ++ rest) =
    (Token.string? rest).map fun (literal, rest) => (escapeChar c ++ literal, rest) := by
  unfold escapeChar
  split
  case h_8 =>
    split
    · next hcontrol =>
      simp only [List.cons_append, List.nil_append]
      rw [Token.string?, unit?_control hcontrol]
      cases Token.string? rest <;> rfl
    · next hcontrol => exact string?_cons (by assumption) (by assumption) hcontrol rest
  all_goals exact string?_shortEscape rfl rest

theorem unescape_escape (text : List Char) : unescape (escape text) = some text := by
  induction text with
  | nil => rfl
  | cons c rest ih =>
      rw [escape, List.flatMap_cons, unescape_escapeChar, ← escape, ih]
      rfl

@[simp] theorem textOf?_escape (text : String) : textOf? (escape text.toList) = some text := by
  rw [textOf?, unescape_escape, Option.map_some, String.ofList_toList]

/-- The literal of a text ends at the quote behind it. -/
theorem string?_escape (text rest : List Char) :
    Token.string? (escape text ++ '"' :: rest) = some (escape text, rest) := by
  induction text with
  | nil => rfl
  | cons c text ih =>
      rw [escape, List.flatMap_cons, List.append_assoc, string?_escapeChar, ← escape, ih]
      rfl

end CounterMesh.Json
