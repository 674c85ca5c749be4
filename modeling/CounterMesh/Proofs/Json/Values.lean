import CounterMesh.Json.Buffered
import CounterMesh.Json.Printer
import CounterMesh.Proofs.Json.Escape
import CounterMesh.Proofs.OrdMap.Relisted

/-!
# Written values are read back

A document that was written from a value of a basic kind gives this value again.
A record gives back its fields, and documents of texts in lists can be held in
memory.
-/

namespace CounterMesh.Json

variable {α β : Type}

@[simp] theorem asText?_text (value : String) : asText? (text value) = some value :=
  textOf?_escape value

theorem asList?_map {write : α → Json} {read : Json → Option β} {value : α → β} {items : List α}
    (h : ∀ item ∈ items, read (write item) = some (value item)) :
    asList? read (.arr (items.map write)) = some (items.map value) := by
  rw [asList?, List.mapM_map]
  exact mapM_eq_pure h

theorem asEntries?_map (read : Json → Option β) (write : α → String × Json)
    (entry : α → String × β) {entries : List α} (hkey : ∀ e ∈ entries, (entry e).1 = (write e).1)
    (hvalue : ∀ e ∈ entries, read (write e).2 = some (entry e).2) :
    asEntries? read (record (entries.map write)) = some (entries.map entry) := by
  rw [record, asEntries?, List.map_map, List.mapM_map]
  refine mapM_eq_pure fun e he => ?_
  simp only [Function.comp_apply, textOf?_escape, hvalue e he, ← hkey e he]
  rfl

/-- The fields of a record under their texts. -/
theorem mapM_textOf?_record (fields : List (String × Json)) :
    (fields.map fun field => (escape field.1.toList, field.2)).mapM
      (fun field => (·, field.2) <$> textOf? field.1) = some fields := by
  rw [List.mapM_map]
  refine (mapM_eq_pure (g := id) fun field _ => ?_).trans (congrArg _ (List.map_id _))
  simp only [Function.comp_apply, textOf?_escape]
  rfl

/-- The fields of a record in the order in which they are asked for. -/
theorem asRecord?_record (names : List String) (fields : List (String × Json)) :
    asRecord? names (record fields) = names.mapM (field? fields) := by
  have hfields := mapM_textOf?_record fields
  rw [record, asRecord?]
  simp only [hfields, Option.bind_eq_bind, Option.bind_some]

theorem isBuffered_text (depth : Nat) (value : String) : isBuffered depth (text value) = true := by
  rw [text, isBuffered, unescape_escape]
  rfl

theorem isBuffered_arr {depth : Nat} {items : List Json}
    (h : ∀ item ∈ items, isBuffered depth item = true) :
    isBuffered (depth + 1) (.arr items) = true := by
  rw [isBuffered]
  induction items with
  | nil => rfl
  | cons item items ih =>
      rw [areBuffered, h item List.mem_cons_self, ih fun i hi => h i (.tail _ hi)]
      rfl

theorem isBuffered_record {depth : Nat} {fields : List (String × Json)}
    (h : ∀ field ∈ fields, isBuffered depth field.2 = true) :
    isBuffered (depth + 1) (record fields) = true := by
  rw [record, isBuffered]
  induction fields with
  | nil => rfl
  | cons field fields ih =>
      rw [List.map_cons, areFieldsBuffered, unescape_escape, h field List.mem_cons_self,
        ih fun f hf => h f (.tail _ hf)]
      rfl

end CounterMesh.Json
