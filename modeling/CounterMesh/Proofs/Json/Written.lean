import CounterMesh.Json.Parser
import CounterMesh.Proofs.Json.Spacing
import CounterMesh.Proofs.Json.Tokens

/-!
# Written documents are read back

A document is written from texts and integers. Its text, compact or indented, is
cut into the tokens of the document, from which the parser builds it again: the
fuel of the parser counts two calls for every token, and no value is without
tokens.
-/

namespace CounterMesh.Json

/-- Documents that are written from texts and integers. -/
inductive Written : Json → Prop where
  | null : Written .null
  | bool (value : Bool) : Written (.bool value)
  | int (value : Int) : Written (.int value)
  | text (value : String) : Written (.text value)
  | arr {items : List Json} (h : ∀ item ∈ items, Written item) : Written (.arr items)
  | record {fields : List (String × Json)} (h : ∀ field ∈ fields, Written field.2) :
      Written (.record fields)

theorem Written.nat (n : Nat) : Written (.nat n) := .int (.ofNat n)

mutual

/-- The tokens of a document. -/
def tokens : Json → List Token
  | .null => [.null]
  | .bool value => [.bool value]
  | .num literal => [.num literal]
  | .str literal => [.str literal]
  | .arr [] => [.openArray, .closeArray]
  | .arr (item :: items) => .openArray :: (tokens item ++ itemTokens items)
  | .obj [] => [.openObject, .closeObject]
  | .obj ((key, value) :: fields) =>
    .openObject :: .str key :: .colon :: (tokens value ++ fieldTokens fields)

/-- The tokens of the further items of an array and of its end. -/
def itemTokens : List Json → List Token
  | [] => [.closeArray]
  | item :: items => .comma :: (tokens item ++ itemTokens items)

/-- The tokens of the further fields of an object and of its end. -/
def fieldTokens : List (List Char × Json) → List Token
  | [] => [.closeObject]
  | (key, value) :: fields =>
    .comma :: .str key :: .colon :: (tokens value ++ fieldTokens fields)

end

/-- A document starts with a token, and not with the end of an array. -/
theorem exists_tokens_eq_cons (document : Json) :
    ∃ first rest, document.tokens = first :: rest ∧ first ≠ .closeArray := by
  cases document with
  | arr items => cases items <;> exact ⟨_, _, rfl, nofun⟩
  | obj fields => cases fields <;> exact ⟨_, _, rfl, nofun⟩
  | _ => exact ⟨_, _, rfl, nofun⟩

section Scanning

open Token (Scans Bounded)

/-- Before anything that does not go on with a number, the text of the document is cut into its
tokens, whatever its spacing. -/
def Scanned (document : Json) : Prop :=
  ∀ spacing depth rest tokens, Bounded rest → Scans rest tokens →
    Scans (spaced spacing depth document ++ rest) (document.tokens ++ tokens)

variable {spacing : Spacing} {depth : Nat} {rest : List Char} {toks : List Token}

/-- White space and what follows it do not go on with a number. -/
theorem bounded_line (hrest : Bounded rest) : Bounded (spacing.line depth ++ rest) := by
  cases hline : spacing.line depth with
  | nil => exact hrest
  | cons c line =>
      have hspace : Token.isSpace c = true :=
        spacing.isSpace_line depth c (hline ▸ List.mem_cons_self)
      rintro _ ⟨⟩
      rw [Token.isSpace] at hspace
      simp only [Bool.or_eq_true, decide_eq_true_iff] at hspace
      rcases hspace with ((rfl | rfl) | rfl) | rfl <;> decide

theorem bounded_comma (rest : List Char) : Bounded (',' :: rest) := by
  rintro c ⟨⟩
  decide

theorem scans_punctuation {c : Char} {token : Token} {rest : List Char} {toks : List Token}
    (hc : Token.isSpace c = false) (hfirst : Token.first? (c :: rest) = some (token, rest))
    (h : Scans rest toks) : Scans (c :: rest) (token :: toks) :=
  h.cons _ hc hfirst (Nat.le_refl _)

/-- The further items of an array are set off from the text before them. -/
theorem bounded_spacedItems (items : List Json) :
    Bounded (spacedItems spacing depth items ++ rest) := by
  cases items with
  | nil =>
      rw [spacedItems, List.append_assoc]
      exact bounded_line (by rintro c ⟨⟩; decide)
  | cons item items =>
      rw [spacedItems]
      exact bounded_comma _

theorem bounded_spacedFields (fields : List (List Char × Json)) :
    Bounded (spacedFields spacing depth fields ++ rest) := by
  cases fields with
  | nil =>
      rw [spacedFields, List.append_assoc]
      exact bounded_line (by rintro c ⟨⟩; decide)
  | cons field fields =>
      rw [spacedFields]
      exact bounded_comma _

theorem scans_line (spacing : Spacing) (depth : Nat) (h : Scans rest toks) :
    Scans (spacing.line depth ++ rest) toks :=
  h.spaces (spacing.isSpace_line depth)

theorem scans_gap (spacing : Spacing) (h : Scans rest toks) : Scans (spacing.gap ++ rest) toks :=
  h.spaces spacing.isSpace_gap

theorem scans_spacedItems (spacing : Spacing) (depth : Nat) {items : List Json}
    (h : ∀ item ∈ items, item.Scanned)
    (hrest : Scans rest toks) :
    Scans (spacedItems spacing depth items ++ rest) (itemTokens items ++ toks) := by
  induction items with
  | nil =>
      rw [spacedItems, List.append_assoc]
      exact scans_line spacing depth (scans_punctuation rfl rfl hrest)
  | cons item items ih =>
      have hitems := ih fun i hi => h i (.tail _ hi)
      have hitem := h item List.mem_cons_self spacing (depth + 1) _ _ (bounded_spacedItems items)
        hitems
      have hline := scans_punctuation (c := ',') rfl rfl (scans_line spacing (depth + 1) hitem)
      simpa only [spacedItems, itemTokens, List.append_assoc, List.cons_append] using hline

/-- The key of a field, its colon and its value. -/
theorem scans_field (spacing : Spacing) (depth : Nat) {field : String × Json}
    (h : field.2.Scanned) (hbounded : Bounded rest)
    (hrest : Scans rest toks) :
    Scans (quoted (escape field.1.toList) ++ ':' ::
        (spacing.gap ++ (spaced spacing depth field.2 ++ rest)))
      (.str (escape field.1.toList) :: .colon :: (field.2.tokens ++ toks)) := by
  have hvalue := h spacing depth _ _ hbounded hrest
  exact (scans_punctuation (c := ':') rfl rfl (scans_gap spacing hvalue)).quoted field.1.toList

theorem scans_spacedFields (spacing : Spacing) (depth : Nat) {fields : List (String × Json)}
    (h : ∀ field ∈ fields, field.2.Scanned) (hrest : Scans rest toks) :
    Scans (spacedFields spacing depth
        (fields.map fun field => (escape field.1.toList, field.2)) ++ rest)
      (fieldTokens (fields.map fun field => (escape field.1.toList, field.2)) ++ toks) := by
  induction fields with
  | nil =>
      rw [List.map_nil, spacedFields, List.append_assoc]
      exact scans_line spacing depth (scans_punctuation rfl rfl hrest)
  | cons field fields ih =>
      have hfields := ih fun f hf => h f (.tail _ hf)
      have hfield := scans_field spacing (depth + 1)
        (h field List.mem_cons_self) (bounded_spacedFields _) hfields
      have hline := scans_punctuation (c := ',') rfl rfl (scans_line spacing (depth + 1) hfield)
      simpa only [List.map_cons, spacedFields, fieldTokens, List.append_assoc,
        List.cons_append] using hline

theorem Written.scanned {document : Json} (h : document.Written) : document.Scanned := by
  induction h with
  | null =>
      intro spacing depth rest toks _ hrest
      exact hrest.cons ('u' :: 'l' :: 'l' :: rest) rfl rfl
        (by simp only [List.length_cons]; omega)
  | bool value =>
      intro spacing depth rest toks _ hrest
      cases value with
      | true =>
          exact hrest.cons ('r' :: 'u' :: 'e' :: rest) rfl rfl
            (by simp only [List.length_cons]; omega)
      | false =>
          exact hrest.cons ('a' :: 'l' :: 's' :: 'e' :: rest) rfl rfl
            (by simp only [List.length_cons]; omega)
  | int value => exact fun spacing depth rest toks hbounded hrest => hrest.int hbounded value
  | text value => exact fun spacing depth rest toks _ hrest => hrest.quoted value.toList
  | @arr items _ ih =>
      intro spacing depth rest toks _ hrest
      cases items with
      | nil => exact scans_punctuation rfl rfl (scans_punctuation rfl rfl hrest)
      | cons item items =>
          have hitems := scans_spacedItems spacing depth
            (fun i hi => ih i (.tail _ hi)) hrest
          have hitem := ih item List.mem_cons_self spacing (depth + 1) _ _
            (bounded_spacedItems items) hitems
          have hopen := scans_punctuation (c := '[') rfl rfl
            (scans_line spacing (depth + 1) hitem)
          simpa only [spaced, tokens, List.append_assoc, List.cons_append] using hopen
  | @record fields _ ih =>
      intro spacing depth rest toks _ hrest
      cases fields with
      | nil => exact scans_punctuation rfl rfl (scans_punctuation rfl rfl hrest)
      | cons field fields =>
          have hfields := scans_spacedFields spacing depth
            (fun f hf => ih f (.tail _ hf)) hrest
          have hfield := scans_field spacing (depth + 1)
            (ih field List.mem_cons_self) (bounded_spacedFields _) hfields
          have hopen := scans_punctuation (c := '\x7b') rfl rfl
            (scans_line spacing (depth + 1) hfield)
          rw [Json.record, List.map_cons]
          simpa only [spaced, tokens, List.append_assoc, List.cons_append] using hopen

end Scanning

section Parsing

/-- The parser builds the document from its tokens, whatever follows them. -/
def Parsed (document : Json) : Prop :=
  ∀ fuel rest, 2 * document.tokens.length ≤ fuel →
    value? fuel (document.tokens ++ rest) = some (document, rest)

variable {fuel : Nat} {rest : List Token}

theorem exists_fuel {document : Json} (h : 2 * document.tokens.length ≤ fuel) :
    ∃ less, fuel = less + 1 := by
  obtain ⟨first, more, hfirst, _⟩ := document.exists_tokens_eq_cons
  rw [hfirst, List.length_cons] at h
  exact Nat.exists_eq_succ_of_ne_zero (by omega)

theorem items?_tokens (fuel : Nat) (rest : List Token) {item : Json} {items : List Json}
    (hitem : item.Parsed) (hitems : ∀ i ∈ items, i.Parsed)
    (hfuel : 2 * (item.tokens.length + (itemTokens items).length) < fuel) :
    items? fuel (item.tokens ++ (itemTokens items ++ rest)) = some (item :: items, rest) := by
  induction items generalizing item fuel with
  | nil =>
      obtain ⟨fuel, rfl⟩ := Nat.exists_eq_succ_of_ne_zero (Nat.ne_zero_of_lt hfuel)
      rw [items?, hitem fuel _ (by omega)]
      rfl
  | cons next items ih =>
      obtain ⟨fuel, rfl⟩ := Nat.exists_eq_succ_of_ne_zero (Nat.ne_zero_of_lt hfuel)
      simp only [itemTokens, List.length_cons, List.length_append] at hfuel
      have hnext := ih fuel (hitems next List.mem_cons_self)
        (fun i hi => hitems i (.tail _ hi)) (by omega)
      rw [items?, hitem fuel _ (by omega)]
      simp only [itemTokens, List.cons_append, List.append_assoc, hnext]
      rfl

theorem fields?_tokens (fuel : Nat) (rest : List Token) (key : List Char) {value : Json}
    (fields : List (List Char × Json)) (hvalue : value.Parsed)
    (hfields : ∀ field ∈ fields, field.2.Parsed)
    (hfuel : 2 * (value.tokens.length + (fieldTokens fields).length) < fuel) :
    fields? fuel (.str key :: .colon :: (value.tokens ++ (fieldTokens fields ++ rest))) =
      some ((key, value) :: fields, rest) := by
  induction fields generalizing key value fuel with
  | nil =>
      obtain ⟨fuel, rfl⟩ := Nat.exists_eq_succ_of_ne_zero (Nat.ne_zero_of_lt hfuel)
      rw [fields?, hvalue fuel _ (by omega)]
      rfl
  | cons field fields ih =>
      obtain ⟨fuel, rfl⟩ := Nat.exists_eq_succ_of_ne_zero (Nat.ne_zero_of_lt hfuel)
      simp only [fieldTokens, List.length_cons, List.length_append] at hfuel
      have hnext := ih fuel field.1 (hfields field List.mem_cons_self)
        (fun f hf => hfields f (.tail _ hf)) (by omega)
      rw [fields?, hvalue fuel _ (by omega)]
      simp only [fieldTokens, List.cons_append, List.append_assoc, hnext]
      rfl

/-- A value behind the start of an array is read as its first item. -/
theorem value?_openArray {first : Token} {more : List Token} (hne : first ≠ .closeArray) :
    value? (fuel + 1) (.openArray :: first :: more) =
      (items? fuel (first :: more)).map fun (items, rest) => (.arr items, rest) := by
  rw [value?]
  rintro rest heq
  exact hne (List.cons.inj heq).1

theorem Written.parsed {document : Json} (h : document.Written) : document.Parsed := by
  induction h with
  | @arr items _ ih =>
      intro fuel rest hfuel
      obtain ⟨fuel, rfl⟩ := exists_fuel hfuel
      cases items with
      | nil => rfl
      | cons item items =>
          obtain ⟨first, more, hfirst, hne⟩ := item.exists_tokens_eq_cons
          simp only [tokens, List.length_cons, List.length_append] at hfuel
          have hitems := items?_tokens fuel rest (ih item List.mem_cons_self)
            (fun i hi => ih i (.tail _ hi)) (by omega)
          rw [hfirst, List.cons_append] at hitems
          rw [tokens, List.cons_append, List.append_assoc, hfirst, List.cons_append,
            value?_openArray hne, hitems]
          rfl
  | @record fields _ ih =>
      intro fuel rest hfuel
      obtain ⟨fuel, rfl⟩ := exists_fuel hfuel
      cases fields with
      | nil => rfl
      | cons field fields =>
          simp only [Json.record, List.map_cons, tokens, List.length_cons, List.length_append]
            at hfuel
          have hfields := fields?_tokens fuel rest (escape field.1.toList)
            (fields.map fun field => (escape field.1.toList, field.2))
            (ih field List.mem_cons_self) (by
              intro f hf
              obtain ⟨g, hg, rfl⟩ := List.mem_map.1 hf
              exact ih g (.tail _ hg)) (by omega)
          simp only [Json.record, List.map_cons, tokens, List.cons_append, List.append_assoc]
          rw [value?]
          · rw [hfields]
            rfl
          · nofun
  | _ =>
      intro fuel rest hfuel
      obtain ⟨fuel, rfl⟩ := exists_fuel hfuel
      rfl

end Parsing

/-- A written document is read back from its text, whatever its spacing. -/
theorem Written.parse? {document : Json} (h : document.Written) (spacing : Spacing) :
    parse? (String.ofList (spaced spacing 0 document)) = some document := by
  have hscan : Token.scan (spaced spacing 0 document) = some document.tokens := by
    have hscans := h.scanned spacing 0 [] [] nofun .nil
    rw [List.append_nil, List.append_nil] at hscans
    exact hscans.scan
  have hvalue : value? (2 * document.tokens.length) document.tokens = some (document, []) := by
    have hparsed := h.parsed _ [] (Nat.le_refl _)
    rwa [List.append_nil] at hparsed
  rw [Json.parse?, String.toList_ofList, hscan, Option.bind_eq_bind, Option.bind_some,
    ofTokens?, hvalue]

/-- The indented text of a written document is read as that document. -/
theorem parse?_pretty {document : Json} (h : document.Written) :
    parse? document.pretty = some document := by
  rw [pretty, ← spaced_wide]
  exact h.parse? .wide

/-- The compact text of a written document is read as that document. -/
theorem parse?_render {document : Json} (h : document.Written) :
    parse? document.render = some document := by
  rw [render, ← spaced_tight 0]
  exact h.parse? .tight

end CounterMesh.Json
