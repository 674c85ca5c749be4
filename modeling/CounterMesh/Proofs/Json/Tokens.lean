import CounterMesh.Json.Printer
import CounterMesh.Proofs.Json.Escape
import Mathlib.Data.List.TakeDrop

/-!
# The tokens of a written document

A document that was written token by token is cut into the same tokens again,
whatever white space stands between them. Only a number has no end of its own:
it ends where a character follows that is no part of it, as it always does in a
document.
-/

namespace CounterMesh.Json

namespace Token

/-- The text is cut into these tokens, by any sufficient fuel. -/
def Scans (text : List Char) (tokens : List Token) : Prop :=
  ∀ fuel, text.length ≤ fuel → scanWith fuel text = some tokens

namespace Scans

variable {c : Char} {text rest : List Char} {tokens : List Token}

theorem nil : Scans [] [] := fun fuel _ => by cases fuel <;> rfl

theorem space (hc : isSpace c = true) (h : Scans rest tokens) : Scans (c :: rest) tokens := by
  intro fuel hfuel
  obtain ⟨fuel, rfl⟩ := Nat.exists_eq_add_of_le' (Nat.lt_of_lt_of_le (Nat.zero_lt_succ _) hfuel)
  rw [scanWith, if_pos hc]
  exact h fuel (Nat.le_of_succ_le_succ hfuel)

theorem cons {first : Token} (text : List Char) (hc : isSpace c = false)
    (hfirst : first? (c :: text) = some (first, rest)) (hle : rest.length ≤ text.length)
    (h : Scans rest tokens) : Scans (c :: text) (first :: tokens) := by
  intro fuel hfuel
  obtain ⟨fuel, rfl⟩ := Nat.exists_eq_add_of_le' (Nat.lt_of_lt_of_le (Nat.zero_lt_succ _) hfuel)
  rw [scanWith, if_neg (by simp [hc]), hfirst]
  have hscan : scanWith fuel rest = some tokens :=
    h fuel (Nat.le_trans hle (Nat.le_of_succ_le_succ hfuel))
  simp only [hscan]
  rfl

theorem spaces {blank : List Char} (hblank : ∀ c ∈ blank, isSpace c = true)
    (h : Scans rest tokens) : Scans (blank ++ rest) tokens := by
  induction blank with
  | nil => exact h
  | cons c blank ih =>
      obtain ⟨hc, hblank⟩ := List.forall_mem_cons.1 hblank
      exact (ih hblank).space hc

theorem quoted (h : Scans rest tokens) (text : List Char) :
    Scans (Json.quoted (escape text) ++ rest) (.str (escape text) :: tokens) := by
  have hfirst : first? ('"' :: (escape text ++ '"' :: rest)) = some (.str (escape text), rest) := by
    rw [first?, string?_escape]
    rfl
  have htext : Json.quoted (escape text) ++ rest = '"' :: (escape text ++ '"' :: rest) := by
    simp [Json.quoted]
  rw [htext]
  refine h.cons _ rfl hfirst ?_
  simp only [List.length_append, List.length_cons]
  omega

theorem scan (h : Scans text tokens) : Token.scan text = some tokens := h _ (Nat.le_refl _)

end Scans

/-- The text does not go on with a part of a number. -/
def Bounded (text : List Char) : Prop :=
  ∀ c ∈ text.head?, c.isDigit = false ∧ c ≠ '.' ∧ c ≠ 'e' ∧ c ≠ 'E'

section Numbers

variable {c : Char} {digits rest : List Char}

theorem digits?_append (hne : digits ≠ []) (hdigits : ∀ c ∈ digits, c.isDigit = true)
    (hrest : Bounded rest) : digits? (digits ++ rest) = some (digits, rest) := by
  have hstop : rest.takeWhile Char.isDigit = [] ∧ rest.dropWhile Char.isDigit = rest := by
    cases rest with
    | nil => exact ⟨rfl, rfl⟩
    | cons c rest =>
        have hc := (hrest c rfl).1
        exact ⟨List.takeWhile_cons_of_neg (by simp [hc]), List.dropWhile_cons_of_neg (by simp [hc])⟩
  rw [digits?, List.span_eq_takeWhile_dropWhile, List.takeWhile_append_of_pos hdigits,
    List.dropWhile_append_of_pos hdigits, hstop.1, hstop.2, List.append_nil]
  simp only [List.isEmpty_eq_false_iff.2 hne]
  rfl

theorem fraction?_of_bounded (hrest : Bounded rest) : fraction? rest = some ([], rest) := by
  cases rest with
  | nil => rfl
  | cons c rest =>
      rw [fraction?]
      rintro _ heq
      exact (hrest c rfl).2.1 (List.cons.inj heq).1

theorem exponent?_of_bounded (hrest : Bounded rest) : exponent? rest = some ([], rest) := by
  cases rest with
  | nil => rfl
  | cons c rest =>
      obtain ⟨_, _, hlower, hupper⟩ := hrest c rfl
      rw [exponent?.eq_def]
      simp only [hlower, hupper, or_self, if_false]

/-- The digits of a positive number do not start with a zero. -/
theorem exists_ofNat_cons {n : Nat} (hn : 0 < n) :
    ∃ c digits, Decimal.ofNat n = c :: digits ∧ c ≠ '0' := by
  induction n using Nat.strongRecOn with
  | ind n ih =>
      by_cases hsmall : n < 10
      · refine ⟨Nat.digitChar n, [], Nat.toDigits_of_lt_base hsmall, ?_⟩
        have hdigit : ∀ n < 10, 0 < n → Nat.digitChar n ≠ '0' := by decide
        exact hdigit n hsmall hn
      · obtain ⟨c, digits, hdigits, hc⟩ := ih (n / 10) (by omega) (by omega)
        refine ⟨c, digits ++ [Nat.digitChar (n % 10)], ?_, hc⟩
        have hstep : Decimal.ofNat n = Decimal.ofNat (n / 10) ++ [Nat.digitChar (n % 10)] :=
          Nat.toDigits_of_base_le (by decide) (by omega)
        rw [hstep, hdigits]
        rfl

theorem isDigit_of_mem_ofNat {n : Nat} (hc : c ∈ Decimal.ofNat n) : c.isDigit = true :=
  Nat.isDigit_of_mem_toDigits (by decide) (by decide) hc

theorem magnitude?_ofNat (n : Nat) (hrest : Bounded rest) :
    magnitude? (Decimal.ofNat n ++ rest) = some (Decimal.ofNat n, rest) := by
  have hwhole : whole? (Decimal.ofNat n ++ rest) = some (Decimal.ofNat n, rest) := by
    rcases Nat.eq_zero_or_pos n with rfl | hpos
    · rfl
    · obtain ⟨c, digits, hdigits, hc⟩ := exists_ofNat_cons hpos
      have hread : digits? (Decimal.ofNat n ++ rest) = some (Decimal.ofNat n, rest) :=
        digits?_append Nat.toDigits_ne_nil (fun c => isDigit_of_mem_ofNat) hrest
      rw [hdigits] at hread ⊢
      rw [List.cons_append, whole?]
      · exact hread
      · rintro _ heq
        exact hc (List.cons.inj heq).1
  rw [magnitude?, hwhole]
  simp only [Option.bind_eq_bind, Option.bind_some, fraction?_of_bounded hrest,
    exponent?_of_bounded hrest, List.append_nil]
  rfl

theorem first?_of_isDigit (hc : c.isDigit = true) :
    first? (c :: rest) =
      (magnitude? (c :: rest)).map fun (literal, rest) => (.num literal, rest) := by
  rw [first?]
  all_goals
    intros
    next heq =>
      obtain ⟨rfl, _⟩ := List.cons.inj heq
      exact absurd hc (by decide)

/-- An integer is a token of its own before anything that is no part of it. -/
theorem Scans.int {tokens : List Token} (h : Scans rest tokens) (hrest : Bounded rest) (n : Int) :
    Scans (Decimal.ofInt n ++ rest) (.num (Decimal.ofInt n) :: tokens) := by
  cases n with
  | ofNat n =>
      obtain ⟨c, digits, hdigits⟩ : ∃ c digits, Decimal.ofNat n = c :: digits :=
        List.exists_cons_of_ne_nil Nat.toDigits_ne_nil
      have hnat : Decimal.ofInt (.ofNat n) = c :: digits := hdigits
      have hc : c.isDigit = true := isDigit_of_mem_ofNat (hdigits ▸ List.mem_cons_self)
      have hread := magnitude?_ofNat n hrest
      rw [hdigits, List.cons_append] at hread
      have hspace : isSpace c = false := by
        rw [isSpace]
        simp only [Bool.or_eq_false_iff, decide_eq_false_iff_not]
        refine ⟨⟨⟨?_, ?_⟩, ?_⟩, ?_⟩ <;> · rintro rfl; cases hc
      rw [hnat, List.cons_append]
      refine h.cons _ hspace ((first?_of_isDigit hc).trans (by rw [hread]; rfl)) ?_
      rw [List.length_append]
      omega
  | negSucc n =>
      have hread : first? ('-' :: (Decimal.ofNat (n + 1) ++ rest)) =
          some (.num (Decimal.ofInt (.negSucc n)), rest) := by
        rw [first?, magnitude?_ofNat _ hrest]
        rfl
      refine h.cons (Decimal.ofNat (n + 1) ++ rest) rfl hread ?_
      rw [List.length_append]
      omega

end Numbers

end Token

end CounterMesh.Json
