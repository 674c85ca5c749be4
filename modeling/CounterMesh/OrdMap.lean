/-!
# Ordered maps

A finite map kept as its list of entries in strictly increasing key order. The
list is the map's one view: two maps with the same entries are equal, scans are
parts of the list, and every operation keeps the order.
-/

namespace CounterMesh

/-- A finite map whose entries are listed in strictly increasing key order. -/
structure OrdMap (κ : Type u) (α : Type v) [Ord κ] where
  toList : List (κ × α)
  sorted : toList.Pairwise fun a b => compare a.1 b.1 = .lt

namespace OrdMap

variable {κ : Type u} {α : Type v} [Ord κ]

@[ext] theorem ext {m n : OrdMap κ α} (h : m.toList = n.toList) : m = n := by
  cases m
  cases n
  cases h
  rfl

instance [DecidableEq κ] [DecidableEq α] : DecidableEq (OrdMap κ α) := fun m n =>
  decidable_of_iff (m.toList = n.toList) ⟨ext, fun h => h ▸ rfl⟩

/-- The map without entries. -/
def empty : OrdMap κ α := ⟨[], .nil⟩

instance : EmptyCollection (OrdMap κ α) := ⟨empty⟩

instance : Inhabited (OrdMap κ α) := ⟨empty⟩

/-- The value under `k` in an ordered list of entries. -/
def lookup (k : κ) : List (κ × α) → Option α
  | [] => none
  | entry :: rest =>
    match compare k entry.1 with
    | .lt => none
    | .eq => some entry.2
    | .gt => lookup k rest

/-- Puts `a` under `k` into an ordered list of entries, in place of an older value. -/
def place (k : κ) (a : α) : List (κ × α) → List (κ × α)
  | [] => [(k, a)]
  | entry :: rest =>
    match compare k entry.1 with
    | .lt => (k, a) :: entry :: rest
    | .eq => (k, a) :: rest
    | .gt => entry :: place k a rest

/-- Takes the entry of `k` out of an ordered list of entries. -/
def remove (k : κ) : List (κ × α) → List (κ × α)
  | [] => []
  | entry :: rest =>
    match compare k entry.1 with
    | .lt => entry :: rest
    | .eq => rest
    | .gt => entry :: remove k rest

theorem mem_place {k : κ} {a : α} {entries : List (κ × α)} {e : κ × α}
    (h : e ∈ place k a entries) : e = (k, a) ∨ e ∈ entries := by
  induction entries with
  | nil => simpa [place] using h
  | cons entry rest ih =>
    rw [place] at h
    split at h
    · simpa using h
    · rcases List.mem_cons.1 h with h | h
      · exact .inl h
      · exact .inr (.tail _ h)
    · rcases List.mem_cons.1 h with h | h
      · exact .inr (h ▸ List.mem_cons_self)
      · exact (ih h).imp_right (.tail _)

theorem sorted_place [Std.TransOrd κ] {k : κ} {a : α} {entries : List (κ × α)}
    (h : entries.Pairwise fun a b => compare a.1 b.1 = .lt) :
    (place k a entries).Pairwise fun a b => compare a.1 b.1 = .lt := by
  induction entries with
  | nil => simp [place]
  | cons entry rest ih =>
    obtain ⟨hfirst, hrest⟩ := List.pairwise_cons.1 h
    rw [place]
    split
    · next hk =>
      refine List.pairwise_cons.2 ⟨fun e he => ?_, h⟩
      rcases List.mem_cons.1 he with rfl | he
      · exact hk
      · exact Std.TransCmp.lt_trans hk (hfirst e he)
    · next hk =>
      exact List.pairwise_cons.2
        ⟨fun e he => Std.TransCmp.lt_of_eq_of_lt hk (hfirst e he), hrest⟩
    · next hk =>
      refine List.pairwise_cons.2 ⟨fun e he => ?_, ih hrest⟩
      rcases mem_place he with rfl | he
      · exact Std.OrientedCmp.lt_of_gt hk
      · exact hfirst e he

theorem remove_sublist (k : κ) (entries : List (κ × α)) :
    (remove k entries).Sublist entries := by
  induction entries with
  | nil => simp [remove]
  | cons entry rest ih =>
    rw [remove]
    split
    · exact List.Sublist.refl _
    · exact List.sublist_cons_self _ _
    · exact ih.cons_cons _

/-- The value stored under a key. -/
def get? (m : OrdMap κ α) (k : κ) : Option α := lookup k m.toList

/-- Whether a key has a value. -/
def contains (m : OrdMap κ α) (k : κ) : Bool := (m.get? k).isSome

/-- Stores a value under a key, in place of an older one. -/
def insert [Std.TransOrd κ] (m : OrdMap κ α) (k : κ) (a : α) : OrdMap κ α :=
  ⟨place k a m.toList, sorted_place m.sorted⟩

/-- Removes a key with its value. -/
def erase (m : OrdMap κ α) (k : κ) : OrdMap κ α :=
  ⟨remove k m.toList, m.sorted.sublist (remove_sublist k m.toList)⟩

/-- The number of keys. -/
def size (m : OrdMap κ α) : Nat := m.toList.length

/-- Whether there is no entry. -/
def isEmpty (m : OrdMap κ α) : Bool := m.toList.isEmpty

/-- The keys in increasing order. -/
def keys (m : OrdMap κ α) : List κ := m.toList.map (·.1)

/-- The values in the order of their keys. -/
def values (m : OrdMap κ α) : List α := m.toList.map (·.2)

/-- The entries whose keys are at least `start`, in order. -/
def entriesFrom (m : OrdMap κ α) (start : κ) : List (κ × α) :=
  m.toList.dropWhile fun entry => compare entry.1 start == .lt

/-- The entry with the greatest key. -/
def last? (m : OrdMap κ α) : Option (κ × α) := m.toList.getLast?

/-- The map with these entries; of two entries with one key the later counts. -/
def ofList [Std.TransOrd κ] (entries : List (κ × α)) : OrdMap κ α :=
  entries.foldl (fun m entry => m.insert entry.1 entry.2) empty

@[simp] theorem toList_empty : (empty : OrdMap κ α).toList = [] := rfl

@[simp] theorem get?_empty (k : κ) : (empty : OrdMap κ α).get? k = none := rfl

@[simp] theorem toList_insert [Std.TransOrd κ] (m : OrdMap κ α) (k : κ) (a : α) :
    (m.insert k a).toList = place k a m.toList := rfl

@[simp] theorem toList_erase (m : OrdMap κ α) (k : κ) :
    (m.erase k).toList = remove k m.toList := rfl

end OrdMap

/-- A finite set listed in strictly increasing order. -/
abbrev OrdSet (κ : Type u) [Ord κ] := OrdMap κ Unit

end CounterMesh
