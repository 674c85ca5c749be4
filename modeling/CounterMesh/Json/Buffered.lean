import CounterMesh.Json.Decode
import CounterMesh.Json.Finite

/-!
# Documents that are held in memory

A part of a document whose shape is decided by a tag is held in memory until the
tag is known. Such a part needs more than the grammar: its strings stand for
texts, its numbers are finite as double-precision numbers, and its lists are not
nested too deeply.
-/

namespace CounterMesh.Json

mutual

/-- Whether a document can be held, with at most `depth` lists around any of its parts. -/
def isBuffered : (depth : Nat) → Json → Bool
  | _, .null => true
  | _, .bool _ => true
  | _, .num literal => isFinite literal
  | _, .str literal => (unescape literal).isSome
  | 0, .arr _ => false
  | depth + 1, .arr items => areBuffered depth items
  | 0, .obj _ => false
  | depth + 1, .obj fields => areFieldsBuffered depth fields

def areBuffered : (depth : Nat) → List Json → Bool
  | _, [] => true
  | depth, item :: items => isBuffered depth item && areBuffered depth items

def areFieldsBuffered : (depth : Nat) → List (List Char × Json) → Bool
  | _, [] => true
  | depth, (key, value) :: fields =>
    (unescape key).isSome && isBuffered depth value && areFieldsBuffered depth fields

end

end CounterMesh.Json
