import CounterMesh.Proofs.Engine.Dense
import CounterMesh.Proofs.OrdMap.Relisted
import Mathlib.Data.Set.Card

/-!
# Scans of trees

A scan of a transaction is a filter of a whole tree: it lists the entries that
start with given bytes, or those from given bytes on, each of them once and in
byte order. Nothing is assumed about the tree. In a dense tree the keys that are
counted and listed are moreover those that hold a value.
-/

namespace CounterMesh

/-- A list has exactly these members, each once and in increasing order. -/
structure Enumerates {α : Type} (cmp : α → α → Ordering) (list : List α) (member : α → Prop) :
    Prop where
  sorted : list.Pairwise fun a b => cmp a b = .lt
  mem_iff : ∀ a, a ∈ list ↔ member a

/-- A query answers with exactly these members, each once and in increasing order. -/
def Yields {α : Type} (cmp : α → α → Ordering) (query : Except Error (List α))
    (member : α → Prop) : Prop :=
  ∃ list, query = .ok list ∧ Enumerates cmp list member

namespace Enumerates

variable {α : Type} {cmp : α → α → Ordering} {list : List α} {member : α → Prop}

theorem filter (h : Enumerates cmp list member) {p : α → Bool} {q : α → Prop}
    (hp : ∀ a, p a = true ↔ q a) : Enumerates cmp (list.filter p) fun a => member a ∧ q a where
  sorted := h.sorted.sublist List.filter_sublist
  mem_iff a := by rw [List.mem_filter, h.mem_iff, hp]

/-- What is listed in increasing order is listed once. -/
theorem nodup [Std.ReflCmp cmp] (h : Enumerates cmp list member) : list.Nodup := by
  refine h.sorted.imp fun {a b} hlt heq => ?_
  have hself : cmp b b = .eq := Std.ReflCmp.compare_self
  rw [heq, hself] at hlt
  cases hlt

theorem ncard [Std.ReflCmp cmp] (h : Enumerates cmp list member) :
    {a | member a}.ncard = list.length := by
  classical
  have hset : {a | member a} = (list.toFinset : Set α) := by
    refine Set.ext fun a => ?_
    rw [List.coe_toFinset]
    exact (h.mem_iff a).symm
  rw [hset, Set.ncard_coe_finset, List.toFinset_card_of_nodup h.nodup]

end Enumerates

/-- The order of entries by their keys. -/
abbrev byKey {α : Type} : Bytes × α → Bytes × α → Ordering := compareOn Prod.fst

/-- The order of pairs by their keys, and under a key by their values. -/
abbrev byPair : Bytes × Bytes → Bytes × Bytes → Ordering :=
  compareLex (compareOn Prod.fst) (compareOn Prod.snd)

namespace OrdMap

variable {α : Type} (m : OrdMap Bytes α)

theorem enumerates_toList :
    Enumerates byKey m.toList fun entry => m.get? entry.1 = some entry.2 where
  sorted := m.sorted
  mem_iff _ := get?_eq_some_iff.symm

theorem enumerates_keys : Enumerates compare m.keys fun key => m.contains key = true where
  sorted := List.pairwise_map.2 m.sorted
  mem_iff _ := contains_iff_mem_keys.symm

/-- A scan of the keys from one on is a filter of all keys. -/
theorem map_entriesFrom (start : Bytes) : (m.entriesFrom start).map (·.1) =
    m.keys.filter fun key => !(compare key start == .lt) := by
  rw [entriesFrom_eq_filter, keys, List.filter_map]
  rfl

/-- A scan of the keys that start with a stem is a filter of all keys. -/
theorem map_entriesStarting (stem : Bytes) :
    (m.entriesStarting stem).map (·.1) = m.keys.filter fun key => stem.isPrefixOf key := by
  rw [entriesStarting_eq_filter, keys, List.filter_map]
  rfl

end OrdMap

namespace MultiTree

theorem enumerates_pairs (tree : MultiTree) :
    Enumerates byPair (pairs tree.toList) fun pair => tree.holds pair.1 pair.2 = true where
  sorted := by
    refine tree.sorted_pairs.imp fun {a b} hlt => ?_
    simp only [byPair, compareLex, compareOn, Ordering.then_eq_lt,
      Std.LawfulEqOrd.compare_eq_iff_eq]
    exact hlt
  mem_iff _ := mem_pairs_iff

theorem Dense.enumerates_keys {tree : MultiTree} (h : tree.Dense) :
    Enumerates compare tree.keys fun key => ∃ value, tree.holds key value = true where
  sorted := (OrdMap.enumerates_keys tree).sorted
  mem_iff _ := mem_keys_iff h

/-- The pairs of the keys that are selected are selected from all pairs. -/
theorem pairs_filter (p : Bytes → Bool) (entries : List (Bytes × OrdSet Bytes)) :
    pairs (entries.filter fun entry => p entry.1) =
      (pairs entries).filter fun pair => p pair.1 := by
  induction entries with
  | nil => rfl
  | cons entry rest ih =>
      have hcons : pairs (entry :: rest) =
          (entry.2.keys.map fun value => (entry.1, value)) ++ pairs rest := List.flatMap_cons
      rw [hcons, List.filter_append, ← ih]
      cases hp : p entry.1 with
      | true =>
          have hall : (entry.2.keys.map fun value => (entry.1, value)).filter
              (fun pair => p pair.1) = entry.2.keys.map fun value => (entry.1, value) :=
            List.filter_eq_self.2 (by simp [hp])
          rw [List.filter_cons_of_pos (by simp [hp]), hall]
          exact List.flatMap_cons
      | false =>
          have hnone : (entry.2.keys.map fun value => (entry.1, value)).filter
              (fun pair => p pair.1) = [] :=
            List.filter_eq_nil_iff.2 (by simp [hp])
          rw [List.filter_cons_of_neg (by simp [hp]), hnone, List.nil_append]

end MultiTree

namespace Transaction

variable {t : Transaction} {name : String} {tree : MultiTree}

section Sorted

variable {key stem start : Bytes} {rows : List (Bytes × Bytes)} {listed : List Bytes}

theorem sorted_scanStarting (h : t.scanStarting name stem = .ok rows) :
    rows.Pairwise fun row row' => compare row.1 row'.1 = .lt := by
  obtain ⟨entries, _, h⟩ := exists_of_bind_eq_ok h
  cases h
  exact OrdMap.sorted_entriesStarting entries stem

theorem sorted_keysFrom (h : t.keysFrom name start = .ok listed) :
    listed.Pairwise fun a b => compare a b = .lt := by
  obtain ⟨tree, _, h⟩ := exists_of_bind_eq_ok h
  cases h
  exact List.pairwise_map.2 (OrdMap.sorted_entriesFrom tree start)

theorem sorted_valuesStarting (h : t.valuesStarting name key stem = .ok listed) :
    listed.Pairwise fun a b => compare a b = .lt := by
  obtain ⟨tree, _, h⟩ := exists_of_bind_eq_ok h
  cases h
  exact List.pairwise_map.2 (OrdMap.sorted_entriesStarting _ stem)

end Sorted

/-- The scans of a transaction are filters of its trees, whatever these contain. -/
structure Filters (t : Transaction) : Prop where
  scanFrom : ∀ {name entries}, t.plain name = .ok entries → ∀ start,
    Yields byKey (t.scanFrom name start) fun entry =>
      entries.get? entry.1 = some entry.2 ∧ compare entry.1 start ≠ .lt
  scanStarting : ∀ {name entries}, t.plain name = .ok entries → ∀ stem,
    Yields byKey (t.scanStarting name stem) fun entry =>
      entries.get? entry.1 = some entry.2 ∧ stem <+: entry.1
  valuesStarting : ∀ {name tree}, t.multi name = .ok tree → ∀ key stem,
    Yields compare (t.valuesStarting name key stem) fun value =>
      MultiTree.holds tree key value = true ∧ stem <+: value
  pairsFrom : ∀ {name tree}, t.multi name = .ok tree → ∀ start,
    Yields byPair (t.pairsFrom name start) fun pair =>
      MultiTree.holds tree pair.1 pair.2 = true ∧ compare pair.1 start ≠ .lt

/-- The keys of a multi tree that are counted and listed are those that hold a value. -/
structure CountsHolding (t : Transaction) : Prop where
  entryCount : ∀ {name tree}, t.multi name = .ok tree →
    t.entryCount name = .ok {key | ∃ value, MultiTree.holds tree key value = true}.ncard
  keysFrom : ∀ {name tree}, t.multi name = .ok tree → ∀ start,
    Yields compare (t.keysFrom name start) fun key =>
      (∃ value, MultiTree.holds tree key value = true) ∧ compare key start ≠ .lt

theorem entryCount_of_multi (h : t.multi name = .ok tree) :
    t.entryCount name = .ok tree.keys.length := by
  have htree : t.tree name = .ok (.multi tree) := by
    rw [multi] at h
    obtain ⟨found, hfound, h⟩ := exists_of_bind_eq_ok h
    cases found with
    | plain _ => cases h
    | multi entries =>
        cases h
        exact hfound
  rw [entryCount, htree, OrdMap.keys, List.length_map]
  rfl

private theorem not_lt_iff {key start : Bytes} :
    (!(compare key start == .lt)) = true ↔ compare key start ≠ .lt := by simp

theorem filters (t : Transaction) : t.Filters where
  scanFrom {name entries} h start := by
    refine ⟨entries.entriesFrom start, by rw [scanFrom, h]; rfl, ?_⟩
    rw [OrdMap.entriesFrom_eq_filter]
    exact entries.enumerates_toList.filter fun _ => not_lt_iff
  scanStarting {name entries} h stem := by
    refine ⟨entries.entriesStarting stem, by rw [scanStarting, h]; rfl, ?_⟩
    rw [OrdMap.entriesStarting_eq_filter]
    exact entries.enumerates_toList.filter fun _ => List.isPrefixOf_iff_prefix
  valuesStarting {name tree} h key stem := by
    refine ⟨((MultiTree.valuesOf tree key).entriesStarting stem).map (·.1),
      by rw [valuesStarting, h]; rfl, ?_⟩
    rw [OrdMap.map_entriesStarting]
    exact (OrdMap.enumerates_keys _).filter fun _ => List.isPrefixOf_iff_prefix
  pairsFrom {name tree} h start := by
    refine ⟨MultiTree.pairs (tree.entriesFrom start), by rw [pairsFrom, h]; rfl, ?_⟩
    rw [OrdMap.entriesFrom_eq_filter,
      MultiTree.pairs_filter fun key => !(compare key start == .lt)]
    exact tree.enumerates_pairs.filter fun _ => not_lt_iff

theorem countsHolding (hdense : t.trees.Dense) : t.CountsHolding where
  entryCount h := by
    rw [entryCount_of_multi h, (dense_of_multi hdense h).enumerates_keys.ncard]
  keysFrom {name tree} h start := by
    refine ⟨(tree.entriesFrom start).map (·.1), by rw [keysFrom, h]; rfl, ?_⟩
    rw [OrdMap.map_entriesFrom]
    exact (dense_of_multi hdense h).enumerates_keys.filter fun _ => not_lt_iff

end Transaction

end CounterMesh
