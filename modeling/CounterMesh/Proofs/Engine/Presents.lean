import CounterMesh.Proofs.Counter.Place
import CounterMesh.Proofs.OrdMap.Scan
import Mathlib.Data.Set.List

/-!
# What trees present

A tree presents a relation when its entries are the related pairs, written in
the codes of its keys and values. Storing and removing an entry then changes the
relation at one pair, and a look-up answers from the relation. Proofs about a
store reason about these relations and leave the byte strings behind.
-/

namespace CounterMesh

/-- The pairs that a tree is to hold, before they are written as byte strings. -/
abbrev Pairs (κ α : Type) := κ → α → Prop

namespace Pairs

variable {κ α : Type} (pairs : Pairs κ α) (x : κ) (y : α)

/-- The pairs with `y` as the only one of `x`. -/
def assign : Pairs κ α := fun x' y' => x' = x ∧ y' = y ∨ x' ≠ x ∧ pairs x' y'

/-- The pairs without those of `x`. -/
def clear : Pairs κ α := fun x' y' => x' ≠ x ∧ pairs x' y'

/-- The pairs with one more. -/
def add : Pairs κ α := fun x' y' => x' = x ∧ y' = y ∨ pairs x' y'

/-- The pairs without this one. -/
def discard : Pairs κ α := fun x' y' => ¬ (x' = x ∧ y' = y) ∧ pairs x' y'

end Pairs

/-- A list whose members are the codes of some things lists these things, written in the code. -/
theorem exists_coded {α β : Type} {code : α → β} (hcode : Function.Injective code)
    {listed : α → Prop} {list : List β} (h : ∀ b, b ∈ list ↔ ∃ a, code a = b ∧ listed a) :
    ∃ rows : List α, list = rows.map code ∧ ∀ a, a ∈ rows ↔ listed a := by
  have hcoded : list ∈ Set.range (List.map code) := by
    rw [Set.range_list_map]
    intro b hb
    obtain ⟨a, rfl, _⟩ := (h b).1 hb
    exact ⟨a, rfl⟩
  obtain ⟨rows, rfl⟩ := hcoded
  refine ⟨rows, rfl, fun a => ?_⟩
  rw [← List.mem_map_of_injective hcode, h]
  constructor
  · rintro ⟨a', heq, hlisted⟩
    exact hcode heq ▸ hlisted
  · exact fun hlisted => ⟨a, rfl, hlisted⟩

/-- Pairs that are written in two codes determine one another. -/
theorem Code.injective_pair {κ α : Type} (keys : Code κ) (values : Code α) :
    Function.Injective fun row : κ × α => (keys.bytes row.1, values.bytes row.2) :=
  keys.injective.prodMap values.injective

namespace PlainTree

variable {κ α : Type} {tree : PlainTree} {keys : Code κ} {values : Code α}
variable {pairs : Pairs κ α} {x : κ} {y : α}

/-- The entries of the tree are exactly these pairs. -/
def Presents (tree : PlainTree) (keys : Code κ) (values : Code α) (pairs : Pairs κ α) : Prop :=
  ∀ key value, tree.get? key = some value ↔
    ∃ x y, keys.bytes x = key ∧ values.bytes y = value ∧ pairs x y

namespace Presents

theorem empty (h : ∀ x y, ¬ pairs x y) : Presents .empty keys values pairs := by
  intro key value
  simp [h]

theorem get? (h : Presents tree keys values pairs) :
    tree.get? (keys.bytes x) = some (values.bytes y) ↔ pairs x y := by
  rw [h]
  constructor
  · rintro ⟨x', y', hx, hy, hp⟩
    rwa [← keys.injective hx, ← values.injective hy]
  · intro hp
    exact ⟨x, y, rfl, rfl, hp⟩

theorem unique (h : Presents tree keys values pairs) {y' : α} (hy : pairs x y)
    (hy' : pairs x y') : y = y' := by
  have heq := (h.get?.2 hy).symm.trans (h.get?.2 hy')
  exact values.injective (Option.some.inj heq)

theorem get?_eq_none (h : Presents tree keys values pairs) (hx : ∀ y, ¬ pairs x y) :
    tree.get? (keys.bytes x) = none := by
  rw [Option.eq_none_iff_forall_ne_some]
  intro value hvalue
  obtain ⟨x', y, hkey, _, hp⟩ := (h _ _).1 hvalue
  exact hx y (keys.injective hkey ▸ hp)

/-- A tree is determined by what it presents. -/
theorem tree_unique {tree' : PlainTree} (h : Presents tree keys values pairs)
    (h' : Presents tree' keys values pairs) : tree = tree' :=
  OrdMap.ext_get? fun key value => (h key value).trans (h' key value).symm

/-- A look-up finds the one pair of a key, or there is none. -/
theorem finds (h : Presents tree keys values pairs) (x : κ) :
    ∃ found : Option α, tree.get? (keys.bytes x) = found.map values.bytes ∧
      ∀ y, found = some y ↔ pairs x y := by
  by_cases hx : ∃ y, pairs x y
  · obtain ⟨y, hp⟩ := hx
    refine ⟨some y, h.get?.2 hp, fun y' => ?_⟩
    rw [Option.some.injEq]
    constructor
    · rintro rfl
      exact hp
    · exact h.unique hp
  · have hnone : ∀ y, ¬ pairs x y := fun y hp => hx ⟨y, hp⟩
    exact ⟨none, h.get?_eq_none hnone, fun y => by simp [hnone y]⟩

/-- The entries of the tree are pairs written in its codes. -/
theorem rows (h : Presents tree keys values pairs) :
    ∃ rows : List (κ × α),
      tree.toList = rows.map (fun row => (keys.bytes row.1, values.bytes row.2)) ∧
      ∀ x y, (x, y) ∈ rows ↔ pairs x y := by
  have hmem : ∀ entry, entry ∈ tree.toList ↔
      ∃ row : κ × α, (keys.bytes row.1, values.bytes row.2) = entry ∧ pairs row.1 row.2 := by
    rintro ⟨key, value⟩
    rw [← OrdMap.get?_eq_some_iff, h, Prod.exists]
    simp only [Prod.mk.injEq, and_assoc]
  obtain ⟨rows, hrows, hpairs⟩ := exists_coded (keys.injective_pair values) hmem
  exact ⟨rows, hrows, fun x y => hpairs (x, y)⟩

theorem insert (h : Presents tree keys values pairs) (x : κ) (y : α) :
    Presents (tree.insert (keys.bytes x) (values.bytes y)) keys values (pairs.assign x y) := by
  intro key value
  by_cases hkey : key = keys.bytes x
  · subst hkey
    rw [OrdMap.get?_insert_self, Option.some.injEq]
    constructor
    · rintro rfl
      exact ⟨x, y, rfl, rfl, .inl ⟨rfl, rfl⟩⟩
    · rintro ⟨x', y', hx, rfl, ⟨_, rfl⟩ | ⟨hne, _⟩⟩
      · rfl
      · exact absurd (keys.injective hx) hne
  · rw [OrdMap.get?_insert_of_ne _ _ hkey, h]
    constructor
    · rintro ⟨x', y', rfl, rfl, hp⟩
      exact ⟨x', y', rfl, rfl, .inr ⟨fun hx => hkey (hx ▸ rfl), hp⟩⟩
    · rintro ⟨x', y', rfl, rfl, ⟨rfl, _⟩ | ⟨_, hp⟩⟩
      · exact absurd rfl hkey
      · exact ⟨x', y', rfl, rfl, hp⟩

theorem erase (h : Presents tree keys values pairs) (x : κ) :
    Presents (tree.erase (keys.bytes x)) keys values (pairs.clear x) := by
  intro key value
  by_cases hkey : key = keys.bytes x
  · subst hkey
    rw [OrdMap.get?_erase_self]
    constructor
    · intro hnone
      cases hnone
    · rintro ⟨x', y', hx, _, hne, _⟩
      exact absurd (keys.injective hx) hne
  · rw [OrdMap.get?_erase_of_ne _ hkey, h]
    constructor
    · rintro ⟨x', y', rfl, rfl, hp⟩
      exact ⟨x', y', rfl, rfl, fun hx => hkey (hx ▸ rfl), hp⟩
    · rintro ⟨x', y', rfl, rfl, _, hp⟩
      exact ⟨x', y', rfl, rfl, hp⟩

end Presents

end PlainTree

namespace MultiTree

theorem valuesOf_add (tree : MultiTree) (key value key' : Bytes) :
    valuesOf (add tree key value) key' =
      if key' = key then (valuesOf tree key).insert value () else valuesOf tree key' := by
  by_cases hkey : key' = key
  · rw [if_pos hkey, hkey, valuesOf, add, OrdMap.get?_insert_self]
    rfl
  · rw [if_neg hkey, valuesOf, add, OrdMap.get?_insert_of_ne _ _ hkey]
    rfl

/-- A multi tree stays as it is if a value is added that it holds. -/
theorem add_of_holds {tree : MultiTree} {key value : Bytes} (h : tree.holds key value = true) :
    tree.add key value = tree := by
  rw [holds, valuesOf] at h
  rw [add, valuesOf]
  cases hget : tree.get? key with
  | none =>
      rw [hget] at h
      cases h
  | some values =>
      rw [hget, Option.getD_some] at h
      obtain ⟨_, hvalue⟩ := Option.isSome_iff_exists.1 h
      rw [Option.getD_some, OrdMap.insert_of_get? hvalue]
      exact OrdMap.insert_of_get? hget

theorem valuesOf_remove (tree : MultiTree) (key value key' : Bytes) :
    valuesOf (remove tree key value) key' =
      if key' = key then (valuesOf tree key).erase value else valuesOf tree key' := by
  have hempty : ∀ values : OrdSet Bytes, values.isEmpty = true → values = .empty := by
    intro values h
    exact OrdMap.ext (List.isEmpty_iff.1 h)
  rw [remove]
  cases hget : tree.get? key with
  | none =>
      have hvalues : valuesOf tree key = .empty := by rw [valuesOf, hget]; rfl
      by_cases hkey : key' = key
      · rw [if_pos hkey, hkey, hvalues]
        rfl
      · rw [if_neg hkey]
  | some values =>
      have hvalues : valuesOf tree key = values := by rw [valuesOf, hget]; rfl
      simp only [hvalues]
      by_cases hrest : (values.erase value).isEmpty = true
      · rw [if_pos hrest, hempty _ hrest]
        by_cases hkey : key' = key
        · rw [if_pos hkey, hkey, valuesOf, OrdMap.get?_erase_self]
          rfl
        · rw [if_neg hkey, valuesOf, OrdMap.get?_erase_of_ne _ hkey]
          rfl
      · rw [if_neg hrest]
        by_cases hkey : key' = key
        · rw [if_pos hkey, hkey, valuesOf, OrdMap.get?_insert_self]
          rfl
        · rw [if_neg hkey, valuesOf, OrdMap.get?_insert_of_ne _ _ hkey]
          rfl

theorem holds_iff_get? {tree : MultiTree} {key value : Bytes} :
    holds tree key value = true ↔ (valuesOf tree key).get? value = some () := by
  rw [holds, OrdMap.contains, Option.isSome_iff_exists]
  exact Unique.exists_iff

theorem holds_add {tree : MultiTree} {key value key' value' : Bytes} :
    holds (add tree key value) key' value' = true ↔
      key' = key ∧ value' = value ∨ holds tree key' value' = true := by
  rw [holds_iff_get?, holds_iff_get?, valuesOf_add]
  by_cases hkey : key' = key
  · rw [if_pos hkey, hkey]
    by_cases hvalue : value' = value
    · simp [hvalue]
    · simp [OrdMap.get?_insert_of_ne _ _ hvalue, hvalue]
  · simp [hkey]

theorem holds_remove {tree : MultiTree} {key value key' value' : Bytes} :
    holds (remove tree key value) key' value' = true ↔
      ¬ (key' = key ∧ value' = value) ∧ holds tree key' value' = true := by
  rw [holds_iff_get?, holds_iff_get?, valuesOf_remove]
  by_cases hkey : key' = key
  · rw [if_pos hkey, hkey]
    by_cases hvalue : value' = value
    · simp [hvalue]
    · simp [OrdMap.get?_erase_of_ne _ hvalue, hvalue]
  · simp [hkey]

theorem dense_iff {tree : MultiTree} :
    tree.Dense ↔ ∀ key values, tree.get? key = some values → values.isEmpty = false := by
  constructor
  · intro h key values hget
    exact h (key, values) (OrdMap.get?_eq_some_iff.1 hget)
  · rintro h ⟨key, values⟩ hmem
    exact h key values (OrdMap.get?_eq_some_iff.2 hmem)

theorem dense_add {tree : MultiTree} (h : tree.Dense) (key value : Bytes) :
    (add tree key value).Dense := by
  rw [dense_iff] at h ⊢
  intro key' values hget
  by_cases hkey : key' = key
  · rw [add, hkey, OrdMap.get?_insert_self] at hget
    cases hget
    have hmem : (value, ()) ∈ ((valuesOf tree key).insert value ()).toList :=
      OrdMap.get?_eq_some_iff.1 (OrdMap.get?_insert_self _ _ _)
    rw [OrdMap.isEmpty, List.isEmpty_eq_false_iff]
    exact List.ne_nil_of_mem hmem
  · rw [add, OrdMap.get?_insert_of_ne _ _ hkey] at hget
    exact h key' values hget

theorem dense_remove {tree : MultiTree} (h : tree.Dense) (key value : Bytes) :
    (remove tree key value).Dense := by
  rw [remove]
  cases hget : tree.get? key with
  | none => exact h
  | some values =>
      rw [dense_iff] at h ⊢
      by_cases hrest : (values.erase value).isEmpty = true
      · simp only [if_pos hrest]
        intro key' values' hget'
        by_cases hkey : key' = key
        · rw [hkey, OrdMap.get?_erase_self] at hget'
          cases hget'
        · rw [OrdMap.get?_erase_of_ne _ hkey] at hget'
          exact h key' values' hget'
      · simp only [if_neg hrest]
        intro key' values' hget'
        by_cases hkey : key' = key
        · rw [hkey, OrdMap.get?_insert_self] at hget'
          cases hget'
          exact Bool.eq_false_iff.2 hrest
        · rw [OrdMap.get?_insert_of_ne _ _ hkey] at hget'
          exact h key' values' hget'

/-- The list of all pairs of a tree holds what the tree holds. -/
theorem mem_pairs_iff {tree : MultiTree} {key value : Bytes} :
    (key, value) ∈ pairs tree.toList ↔ holds tree key value = true := by
  have hvalues : ∀ held : OrdSet Bytes, value ∈ held.keys ↔ held.get? value = some () := by
    intro held
    rw [OrdMap.get?_eq_some_iff, OrdMap.keys, List.mem_map]
    constructor
    · rintro ⟨⟨_, _⟩, hmem, rfl⟩
      exact hmem
    · exact fun hmem => ⟨_, hmem, rfl⟩
  rw [holds_iff_get?, pairs, List.mem_flatMap, valuesOf]
  constructor
  · rintro ⟨⟨key', held⟩, hentry, hvalue⟩
    obtain ⟨value', hheld, heq⟩ := List.mem_map.1 hvalue
    cases heq
    rw [OrdMap.get?_eq_some_iff.2 hentry]
    exact (hvalues held).1 hheld
  · cases hkey : tree.get? key with
    | none => exact nofun
    | some held =>
        intro hvalue
        exact ⟨(key, held), OrdMap.get?_eq_some_iff.1 hkey,
          List.mem_map.2 ⟨value, (hvalues held).2 hvalue, rfl⟩⟩

/-- The keys of a dense tree are those that hold a value. -/
theorem mem_keys_iff {tree : MultiTree} (h : tree.Dense) {key : Bytes} :
    key ∈ tree.keys ↔ ∃ value, holds tree key value = true := by
  rw [OrdMap.keys, List.mem_map]
  constructor
  · rintro ⟨⟨key, held⟩, hentry, rfl⟩
    have hsome := h _ hentry
    rw [OrdMap.isEmpty, List.isEmpty_eq_false_iff_exists_mem] at hsome
    obtain ⟨⟨value, _⟩, hvalue⟩ := hsome
    refine ⟨value, ?_⟩
    rw [holds_iff_get?, valuesOf, OrdMap.get?_eq_some_iff.2 hentry]
    exact OrdMap.get?_eq_some_iff.2 hvalue
  · rintro ⟨value, hholds⟩
    obtain ⟨⟨key', held⟩, hentry, hvalue⟩ := List.mem_flatMap.1 (mem_pairs_iff.2 hholds)
    obtain ⟨_, _, heq⟩ := List.mem_map.1 hvalue
    exact ⟨(key', held), hentry, (Prod.mk.inj heq).1⟩

/-- The list of all pairs of a tree runs in the order of the keys, and under a key in the order of
the values. -/
theorem sorted_pairs (tree : MultiTree) : (pairs tree.toList).Pairwise fun a b =>
    compare a.1 b.1 = .lt ∨ a.1 = b.1 ∧ compare a.2 b.2 = .lt := by
  rw [pairs, List.pairwise_flatMap]
  constructor
  · rintro ⟨key, held⟩ _
    rw [List.pairwise_map, OrdMap.keys, List.pairwise_map]
    exact held.sorted.imp fun hlt => .inr ⟨rfl, hlt⟩
  · refine tree.sorted.imp fun {entry entry'} hlt => ?_
    intro row hrow row' hrow'
    obtain ⟨value, _, rfl⟩ := List.mem_map.1 hrow
    obtain ⟨value', _, rfl⟩ := List.mem_map.1 hrow'
    exact .inl hlt

variable {κ α : Type} {tree : MultiTree} {keys : Code κ} {values : Code α}
variable {pairs : Pairs κ α} {x : κ} {y : α}

/-- The values under the keys of the tree are exactly these pairs, and no key is left without
values. -/
structure Presents (tree : MultiTree) (keys : Code κ) (values : Code α) (pairs : Pairs κ α) :
    Prop where
  dense : tree.Dense
  holds_iff : ∀ key value, holds tree key value = true ↔
    ∃ x y, keys.bytes x = key ∧ values.bytes y = value ∧ pairs x y

namespace Presents

theorem empty (h : ∀ x y, ¬ pairs x y) : Presents .empty keys values pairs where
  dense := by
    rintro entry hmem
    cases hmem
  holds_iff := by
    intro key value
    simp [holds, valuesOf, OrdMap.contains, h]

theorem holds (h : Presents tree keys values pairs) :
    MultiTree.holds tree (keys.bytes x) (values.bytes y) = true ↔ pairs x y := by
  rw [h.holds_iff]
  constructor
  · rintro ⟨x', y', hx, hy, hp⟩
    rwa [← keys.injective hx, ← values.injective hy]
  · intro hp
    exact ⟨x, y, rfl, rfl, hp⟩

/-- A tree is determined by what it presents. -/
theorem tree_unique {tree' : MultiTree} (h : Presents tree keys values pairs)
    (h' : Presents tree' keys values pairs) : tree = tree' := by
  have hvalues : ∀ key, valuesOf tree key = valuesOf tree' key := by
    refine fun key => OrdMap.ext_get? fun value _ => ?_
    rw [← holds_iff_get?, ← holds_iff_get?, h.holds_iff, h'.holds_iff]
  -- No key is left without values, so the values tell the keys.
  have hget : ∀ {t : MultiTree}, t.Dense → ∀ key held,
      t.get? key = some held ↔ valuesOf t key = held ∧ held.isEmpty = false := by
    intro t hdense key held
    rw [valuesOf]
    cases hkey : t.get? key with
    | none =>
        refine ⟨nofun, ?_⟩
        rintro ⟨rfl, hempty⟩
        cases hempty
    | some held' =>
        refine ⟨?_, fun ⟨heq, _⟩ => congrArg some heq⟩
        intro heq
        cases heq
        exact ⟨rfl, dense_iff.1 hdense key held hkey⟩
  refine OrdMap.ext_get? fun key held => ?_
  rw [hget h.dense, hget h'.dense, hvalues]

/-- The values under a key are related values written in their code. -/
theorem valuesOf_rows (h : Presents tree keys values pairs) (x : κ) :
    ∃ rows : List α, (valuesOf tree (keys.bytes x)).toList =
        rows.map (fun y => (values.bytes y, ())) ∧ ∀ y, y ∈ rows ↔ pairs x y := by
  have hmem : ∀ entry, entry ∈ (valuesOf tree (keys.bytes x)).toList ↔
      ∃ y, (values.bytes y, ()) = entry ∧ pairs x y := by
    rintro ⟨value, _⟩
    rw [← OrdMap.get?_eq_some_iff, ← holds_iff_get?, h.holds_iff]
    constructor
    · rintro ⟨x', y, hx, rfl, hp⟩
      exact ⟨y, rfl, keys.injective hx ▸ hp⟩
    · rintro ⟨y, heq, hp⟩
      exact ⟨x, y, rfl, (Prod.mk.inj heq).1, hp⟩
  exact exists_coded (fun _ _ heq => values.injective (Prod.mk.inj heq).1) hmem

/-- The keys of the tree are those that are related to anything, written in their code. -/
theorem keys_rows (h : Presents tree keys values pairs) :
    ∃ rows : List κ, tree.keys = rows.map keys.bytes ∧ ∀ x, x ∈ rows ↔ ∃ y, pairs x y := by
  refine exists_coded keys.injective fun key => ?_
  rw [mem_keys_iff h.dense]
  constructor
  · rintro ⟨value, hholds⟩
    obtain ⟨x, y, hx, _, hp⟩ := (h.holds_iff key value).1 hholds
    exact ⟨x, hx, y, hp⟩
  · rintro ⟨x, rfl, y, hp⟩
    exact ⟨_, h.holds.2 hp⟩

/-- The list of all pairs of the tree are related pairs written in its codes. -/
theorem pairs_rows (h : Presents tree keys values pairs) :
    ∃ rows : List (κ × α),
      MultiTree.pairs tree.toList =
        rows.map (fun row => (keys.bytes row.1, values.bytes row.2)) ∧
      ∀ x y, (x, y) ∈ rows ↔ pairs x y := by
  have hmem : ∀ entry, entry ∈ MultiTree.pairs tree.toList ↔
      ∃ row : κ × α, (keys.bytes row.1, values.bytes row.2) = entry ∧ pairs row.1 row.2 := by
    rintro ⟨key, value⟩
    rw [mem_pairs_iff, h.holds_iff, Prod.exists]
    simp only [Prod.mk.injEq, and_assoc]
  obtain ⟨rows, hrows, hpairs⟩ := exists_coded (keys.injective_pair values) hmem
  exact ⟨rows, hrows, fun x y => hpairs (x, y)⟩

theorem add (h : Presents tree keys values pairs) (x : κ) (y : α) :
    Presents (MultiTree.add tree (keys.bytes x) (values.bytes y)) keys values
      (pairs.add x y) where
  dense := dense_add h.dense _ _
  holds_iff := by
    intro key value
    rw [holds_add, h.holds_iff]
    constructor
    · rintro (⟨rfl, rfl⟩ | ⟨x', y', rfl, rfl, hp⟩)
      · exact ⟨x, y, rfl, rfl, .inl ⟨rfl, rfl⟩⟩
      · exact ⟨x', y', rfl, rfl, .inr hp⟩
    · rintro ⟨x', y', rfl, rfl, ⟨rfl, rfl⟩ | hp⟩
      · exact .inl ⟨rfl, rfl⟩
      · exact .inr ⟨x', y', rfl, rfl, hp⟩

theorem remove (h : Presents tree keys values pairs) (x : κ) (y : α) :
    Presents (MultiTree.remove tree (keys.bytes x) (values.bytes y)) keys values
      (pairs.discard x y) where
  dense := dense_remove h.dense _ _
  holds_iff := by
    intro key value
    rw [holds_remove, h.holds_iff]
    constructor
    · rintro ⟨hne, x', y', rfl, rfl, hp⟩
      refine ⟨x', y', rfl, rfl, ?_, hp⟩
      rintro ⟨rfl, rfl⟩
      exact hne ⟨rfl, rfl⟩
    · rintro ⟨x', y', rfl, rfl, hne, hp⟩
      refine ⟨?_, x', y', rfl, rfl, hp⟩
      rintro ⟨hx, hy⟩
      exact hne ⟨keys.injective hx, values.injective hy⟩

end Presents

end MultiTree

end CounterMesh
