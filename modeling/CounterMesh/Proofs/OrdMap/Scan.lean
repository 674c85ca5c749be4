import CounterMesh.Engine.Tree
import CounterMesh.OrdMap.Lookup
import Mathlib.Data.List.Sort

/-!
# Scans of ordered maps

A scan walks along the ordered entries of a map and stops early. Because the
entries are in order, it nevertheless lists every entry that its test selects:
each scan is a filter of the whole map.
-/

namespace CounterMesh

namespace OrdMap

/-- Lists in the order of keys are equal if they have the same members. -/
theorem eq_of_sorted {κ : Type u} {α : Type v} [Ord κ] [Std.TransOrd κ] {key : α → κ}
    {l l' : List α} (h : l.Pairwise fun a b => compare (key a) (key b) = .lt)
    (h' : l'.Pairwise fun a b => compare (key a) (key b) = .lt) (hmem : ∀ a, a ∈ l ↔ a ∈ l') :
    l = l' := by
  have : Std.Irrefl fun a b : α => compare (key a) (key b) = .lt :=
    ⟨fun a hlt => by simp at hlt⟩
  have : Std.Antisymm fun a b : α => compare (key a) (key b) = .lt :=
    ⟨fun a b hlt hlt' => by simp [Std.OrientedCmp.gt_of_lt hlt] at hlt'⟩
  exact List.Pairwise.eq_of_mem_iff h h' hmem

/-- Maps with the same look-ups are equal. -/
theorem ext_get? {κ : Type u} {α : Type v} [Ord κ] [Std.TransOrd κ] [Std.LawfulEqOrd κ]
    {m m' : OrdMap κ α} (h : ∀ k a, m.get? k = some a ↔ m'.get? k = some a) : m = m' := by
  refine ext (eq_of_sorted m.sorted m'.sorted fun ⟨k, a⟩ => ?_)
  rw [← get?_eq_some_iff, ← get?_eq_some_iff, h]

theorem insert_of_get? {κ : Type u} {α : Type v} [Ord κ] [Std.TransOrd κ] [Std.LawfulEqOrd κ]
    {m : OrdMap κ α} {k : κ} {a : α} (h : m.get? k = some a) : m.insert k a = m := by
  refine ext_get? fun k' a' => ?_
  by_cases hk : k' = k
  · rw [hk, get?_insert_self, h]
  · rw [get?_insert_of_ne _ _ hk]

theorem erase_insert {κ : Type u} {α : Type v} [Ord κ] [Std.TransOrd κ] [Std.LawfulEqOrd κ]
    (m : OrdMap κ α) (k : κ) (a : α) : (m.insert k a).erase k = m.erase k := by
  refine ext_get? fun k' a' => ?_
  by_cases hk : k' = k
  · rw [hk, get?_erase_self, get?_erase_self]
  · rw [get?_erase_of_ne _ hk, get?_erase_of_ne _ hk, get?_insert_of_ne _ _ hk]

/-- A walk that stops where a test first fails misses nothing, if the test never
holds again behind an element where it failed. -/
theorem takeWhile_eq_filter {α : Type u} {p : α → Bool} {l : List α}
    (h : l.Pairwise fun a b => p b = true → p a = true) : l.takeWhile p = l.filter p := by
  induction l with
  | nil => rfl
  | cons a rest ih =>
      obtain ⟨hfirst, hrest⟩ := List.pairwise_cons.1 h
      cases ha : p a with
      | true => rw [List.takeWhile_cons_of_pos ha, List.filter_cons_of_pos ha, ih hrest]
      | false =>
          have hnone : ∀ b ∈ rest, ¬ p b = true := by
            intro b hb hpb
            have hpa := hfirst b hb hpb
            rw [ha] at hpa
            cases hpa
          rw [List.takeWhile_cons_of_neg (by simp [ha]), List.filter_cons_of_neg (by simp [ha]),
            List.filter_eq_nil_iff.2 hnone]

theorem dropWhile_eq_filter {α : Type u} {p : α → Bool} {l : List α}
    (h : l.Pairwise fun a b => p b = true → p a = true) :
    l.dropWhile p = l.filter fun a => !p a := by
  induction l with
  | nil => rfl
  | cons a rest ih =>
      obtain ⟨hfirst, hrest⟩ := List.pairwise_cons.1 h
      cases ha : p a with
      | true =>
          rw [List.dropWhile_cons_of_pos ha, List.filter_cons_of_neg (by simp [ha]), ih hrest]
      | false =>
          have hall : ∀ b ∈ a :: rest, (!p b) = true := by
            intro b hb
            rcases List.mem_cons.1 hb with rfl | hb
            · simp [ha]
            · cases hpb : p b with
              | false => rfl
              | true =>
                  have hpa := hfirst b hb hpb
                  rw [ha] at hpa
                  cases hpa
          rw [List.dropWhile_cons_of_neg (by simp [ha]), List.filter_eq_self.2 hall]

variable {κ : Type u} {α : Type v} [Ord κ]

/-- A scan from a key on lists exactly the entries whose keys are not less. -/
theorem entriesFrom_eq_filter [Std.TransOrd κ] (m : OrdMap κ α) (start : κ) :
    m.entriesFrom start = m.toList.filter fun e => !(compare e.1 start == .lt) := by
  refine dropWhile_eq_filter (m.sorted.imp ?_)
  intro a b hab hb
  rw [beq_iff_eq] at hb ⊢
  exact Std.TransCmp.lt_trans hab hb

theorem mem_entriesFrom [Std.TransOrd κ] {m : OrdMap κ α} {start : κ} {e : κ × α} :
    e ∈ m.entriesFrom start ↔ e ∈ m.toList ∧ compare e.1 start ≠ .lt := by
  simp [entriesFrom_eq_filter]

theorem sorted_entriesFrom (m : OrdMap κ α) (start : κ) :
    (m.entriesFrom start).Pairwise fun a b => compare a.1 b.1 = .lt :=
  m.sorted.sublist (List.dropWhile_sublist _)

end OrdMap

namespace Bytes

theorem compare_ne_lt_of_stem {stem key : Bytes} (h : stem <+: key) :
    compare key stem ≠ .lt := by
  obtain ⟨rest, rfl⟩ := h
  induction stem with
  | nil => cases rest <;> simp
  | cons byte stem ih => simpa using ih

/-- Between a stem and a key with this stem there are only keys with this stem. -/
theorem stem_of_between {stem a b : Bytes} (hstem : compare a stem ≠ .lt)
    (hab : compare a b = .lt) (hb : stem <+: b) : stem <+: a := by
  obtain ⟨rest, rfl⟩ := hb
  induction stem generalizing a with
  | nil => exact List.nil_prefix
  | cons byte stem ih =>
      cases a with
      | nil => exact absurd rfl hstem
      | cons first a =>
          simp only [List.cons_append, List.compare_cons_cons, ne_eq, Ordering.then_eq_lt]
            at hstem hab
          rcases hab with hlt | ⟨heq, hab⟩
          · exact absurd (.inl hlt) hstem
          · have hsame : first = byte := Std.LawfulEqOrd.eq_of_compare heq
            subst hsame
            have hrest : stem <+: a := ih (fun hlt => hstem (.inr ⟨heq, hlt⟩)) hab
            exact List.cons_prefix_cons.2 ⟨rfl, hrest⟩

end Bytes

namespace OrdMap

variable {α : Type v}

/-- A scan for a stem lists exactly the entries whose keys start with it. -/
theorem entriesStarting_eq_filter (m : OrdMap Bytes α) (stem : Bytes) :
    m.entriesStarting stem = m.toList.filter fun e => stem.isPrefixOf e.1 := by
  have hfrom : ∀ e ∈ m.entriesFrom stem, compare e.1 stem ≠ .lt :=
    fun e he => (mem_entriesFrom.1 he).2
  have htake : (m.entriesFrom stem).takeWhile (fun e => stem.isPrefixOf e.1) =
      (m.entriesFrom stem).filter fun e => stem.isPrefixOf e.1 := by
    refine takeWhile_eq_filter ((sorted_entriesFrom m stem).imp_of_mem ?_)
    intro a b ha _ hab hb
    rw [List.isPrefixOf_iff_prefix] at hb ⊢
    exact Bytes.stem_of_between (hfrom a ha) hab hb
  rw [entriesStarting, htake, entriesFrom_eq_filter, List.filter_filter]
  refine List.filter_congr fun e _ => ?_
  cases hp : stem.isPrefixOf e.1 with
  | false => rfl
  | true =>
      have hne := Bytes.compare_ne_lt_of_stem (List.isPrefixOf_iff_prefix.1 hp)
      simpa using hne

/-- A scan of all keys lists all entries. -/
theorem entriesFrom_nil (m : OrdMap Bytes α) : m.entriesFrom [] = m.toList := by
  rw [entriesFrom_eq_filter, List.filter_eq_self]
  rintro ⟨key, value⟩ _
  cases key <;> rfl

theorem entriesStarting_nil (m : OrdMap Bytes α) : m.entriesStarting [] = m.toList := by
  rw [entriesStarting_eq_filter, List.filter_eq_self]
  exact fun _ _ => rfl

theorem sorted_entriesStarting (m : OrdMap Bytes α) (stem : Bytes) :
    (m.entriesStarting stem).Pairwise fun a b => compare a.1 b.1 = .lt := by
  rw [entriesStarting_eq_filter]
  exact m.sorted.sublist List.filter_sublist

/-- Maps with the same look-ups of the keys that start with a stem list the same entries for it. -/
theorem entriesStarting_congr {m m' : OrdMap Bytes α} {stem : Bytes}
    (h : ∀ k a, stem <+: k → (m.get? k = some a ↔ m'.get? k = some a)) :
    m.entriesStarting stem = m'.entriesStarting stem := by
  refine eq_of_sorted (m.sorted_entriesStarting stem) (m'.sorted_entriesStarting stem)
    fun ⟨k, a⟩ => ?_
  rw [entriesStarting_eq_filter, entriesStarting_eq_filter, List.mem_filter, List.mem_filter,
    ← get?_eq_some_iff, ← get?_eq_some_iff, List.isPrefixOf_iff_prefix]
  exact and_congr_left (h k a)

end OrdMap

end CounterMesh
