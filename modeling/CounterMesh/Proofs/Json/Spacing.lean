import CounterMesh.Json.Printer
import CounterMesh.Json.Token

/-!
# White space between tokens

The compact and the indented text of a document have the same tokens and differ
in the white space between them. A spacing says what stands there; both forms
are spaced texts, so that what holds for every spacing holds for both.
-/

namespace CounterMesh.Json

/-- What a text has before the items and the ends of its lists, and behind its colons. -/
structure Spacing where
  line : (depth : Nat) → List Char
  gap : List Char
  isSpace_line : ∀ depth, ∀ c ∈ line depth, Token.isSpace c = true
  isSpace_gap : ∀ c ∈ gap, Token.isSpace c = true

namespace Spacing

/-- No white space at all. -/
def tight : Spacing := ⟨fun _ => [], [], fun _ => nofun, nofun⟩

/-- Every item on a line of its own. -/
def wide : Spacing where
  line := newline
  gap := [' ']
  isSpace_line := by
    intro depth c hc
    rcases List.mem_cons.1 hc with rfl | hc
    · rfl
    · rw [List.eq_of_mem_replicate hc]
      rfl
  isSpace_gap := by
    intro c hc
    rw [List.mem_singleton.1 hc]
    rfl

end Spacing

mutual

/-- The text of a document with this spacing, whose first line is `depth` steps deep. -/
def spaced (spacing : Spacing) (depth : Nat) : Json → List Char
  | .null => "null".toList
  | .bool true => "true".toList
  | .bool false => "false".toList
  | .num literal => literal
  | .str literal => quoted literal
  | .arr [] => ['[', ']']
  | .arr (item :: items) =>
    '[' :: spacing.line (depth + 1) ++ spaced spacing (depth + 1) item ++
      spacedItems spacing depth items
  | .obj [] => ['\x7b', '\x7d']
  | .obj ((key, value) :: fields) =>
    '\x7b' :: spacing.line (depth + 1) ++ quoted key ++ ':' :: spacing.gap ++
      spaced spacing (depth + 1) value ++ spacedFields spacing depth fields

/-- The further items of an array and its end. -/
def spacedItems (spacing : Spacing) (depth : Nat) : List Json → List Char
  | [] => spacing.line depth ++ [']']
  | item :: items =>
    ',' :: spacing.line (depth + 1) ++ spaced spacing (depth + 1) item ++
      spacedItems spacing depth items

/-- The further fields of an object and its end. -/
def spacedFields (spacing : Spacing) (depth : Nat) : List (List Char × Json) → List Char
  | [] => spacing.line depth ++ ['\x7d']
  | (key, value) :: fields =>
    ',' :: spacing.line (depth + 1) ++ quoted key ++ ':' :: spacing.gap ++
      spaced spacing (depth + 1) value ++ spacedFields spacing depth fields

end

mutual

/-- The compact text has no white space. -/
theorem spaced_tight (depth : Nat) : ∀ document, spaced .tight depth document = compact document
  | .null => rfl
  | .bool true => rfl
  | .bool false => rfl
  | .num _ => rfl
  | .str _ => rfl
  | .arr [] => rfl
  | .arr (item :: items) => by
      rw [spaced, compact, spaced_tight (depth + 1) item, spacedItems_tight depth items]
      rfl
  | .obj [] => rfl
  | .obj ((key, value) :: fields) => by
      rw [spaced, compact, spaced_tight (depth + 1) value, spacedFields_tight depth fields]
      simp [Spacing.tight]

theorem spacedItems_tight (depth : Nat) :
    ∀ items, spacedItems .tight depth items = compactItems items
  | [] => rfl
  | item :: items => by
      rw [spacedItems, compactItems, spaced_tight (depth + 1) item, spacedItems_tight depth items]
      rfl

theorem spacedFields_tight (depth : Nat) :
    ∀ fields, spacedFields .tight depth fields = compactFields fields
  | [] => rfl
  | (key, value) :: fields => by
      rw [spacedFields, compactFields, spaced_tight (depth + 1) value,
        spacedFields_tight depth fields]
      simp [Spacing.tight]

end

mutual

/-- The indented text is the one with wide spacing. -/
theorem spaced_wide (depth : Nat) :
    ∀ document, spaced .wide depth document = indented depth document
  | .null => rfl
  | .bool true => rfl
  | .bool false => rfl
  | .num _ => rfl
  | .str _ => rfl
  | .arr [] => rfl
  | .arr (item :: items) => by
      rw [spaced, indented, spaced_wide (depth + 1) item, spacedItems_wide depth items]
      rfl
  | .obj [] => rfl
  | .obj ((key, value) :: fields) => by
      rw [spaced, indented, spaced_wide (depth + 1) value, spacedFields_wide depth fields]
      simp [Spacing.wide]

theorem spacedItems_wide (depth : Nat) :
    ∀ items, spacedItems .wide depth items = indentedItems depth items
  | [] => rfl
  | item :: items => by
      rw [spacedItems, indentedItems, spaced_wide (depth + 1) item, spacedItems_wide depth items]
      rfl

theorem spacedFields_wide (depth : Nat) :
    ∀ fields, spacedFields .wide depth fields = indentedFields depth fields
  | [] => rfl
  | (key, value) :: fields => by
      rw [spacedFields, indentedFields, spaced_wide (depth + 1) value,
        spacedFields_wide depth fields]
      simp [Spacing.wide]

end

end CounterMesh.Json
