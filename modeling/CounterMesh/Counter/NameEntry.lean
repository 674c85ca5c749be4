import CounterMesh.Counter.Stored

/-!
# Name entries

Two indexes tie a name to a counter id. In its group a counter is listed as the
name followed by the id; from the id a counter is found as the id followed by
the name. The id has eight bytes, so that either entry comes apart again.
-/

namespace CounterMesh

namespace GroupEntry

/-- The entry of a counter in its group. -/
def bytes (name : Bytes) (counterId : CounterId) : Bytes := name ++ Word.big counterId

/-- The id in an entry, if it is the entry of this very name. -/
def idFor? (name entry : Bytes) : Option CounterId :=
  if name.isPrefixOf entry then Word.big? (entry.drop name.length) else none

/-- The name and the id of an entry that stands in the tree `tree`. -/
def split (tree : String) (entry : Bytes) : Except Error (Bytes × CounterId) :=
  if entry.length < 8 then .error (.counter (.invalidWidth tree 8 entry.length))
  else do
    let start := entry.length - 8
    return (entry.take start, ← Stored.word tree (entry.drop start))

theorem idFor?_eq_some_iff {name entry : Bytes} {counterId : CounterId} :
    idFor? name entry = some counterId ↔
      ∃ id, entry = name ++ id ∧ Word.big? id = some counterId := by
  unfold idFor?
  constructor
  · intro h
    split at h
    · next hp =>
      obtain ⟨id, rfl⟩ := List.isPrefixOf_iff_prefix.1 hp
      exact ⟨id, rfl, by simpa using h⟩
    · cases h
  · rintro ⟨id, rfl, h⟩
    rw [if_pos (List.isPrefixOf_iff_prefix.2 (List.prefix_append name id))]
    simpa using h

end GroupEntry

namespace NameKey

/-- The key under which the group of a counter is found from its id. -/
def bytes (counterId : CounterId) (name : Bytes) : Bytes := Word.big counterId ++ name

/-- The id and the name of a key that stands in the tree `tree`. -/
def split (tree : String) (key : Bytes) : Except Error (CounterId × Bytes) :=
  if key.length < 8 then .error (.counter (.invalidWidth tree 8 key.length))
  else return (← Stored.word tree (key.take 8), key.drop 8)

end NameKey

end CounterMesh
