import CounterMesh.OrdMap

/-!
# Look-ups in ordered maps

A look-up finds exactly the entries that the map lists. After an insertion or a
removal it finds what was put or taken under the key, and under every other key
what it found before. A map is therefore determined by its look-ups.
-/

namespace CounterMesh.OrdMap

variable {κ : Type u} {α : Type v} [Ord κ] [Std.TransOrd κ] [Std.LawfulEqOrd κ]

theorem lookup_eq_some_iff {k : κ} {a : α} {entries : List (κ × α)}
    (h : entries.Pairwise fun a b => compare a.1 b.1 = .lt) :
    lookup k entries = some a ↔ (k, a) ∈ entries := by
  induction entries with
  | nil => simp [lookup]
  | cons entry rest ih =>
    obtain ⟨hfirst, hrest⟩ := List.pairwise_cons.1 h
    rw [lookup, List.mem_cons]
    cases hk : compare k entry.1 with
    | lt =>
      have hnot : (k, a) ∉ rest := fun hm => by
        have hlt := Std.TransCmp.lt_trans hk (hfirst _ hm)
        simp at hlt
      have hne : (k, a) ≠ entry := by
        rintro rfl
        simp at hk
      simp [hnot, hne]
    | eq =>
      have heq : k = entry.1 := Std.LawfulEqOrd.eq_of_compare hk
      have hnot : (k, a) ∉ rest := fun hm => by
        have hlt := hfirst _ hm
        rw [← heq] at hlt
        simp at hlt
      simp only [Option.some.injEq, hnot, or_false]
      constructor
      · intro ha
        exact Prod.ext heq ha.symm
      · intro he
        exact (congrArg Prod.snd he).symm
    | gt =>
      have hne : (k, a) ≠ entry := by
        rintro rfl
        simp at hk
      simpa [hne] using ih hrest

theorem lookup_place (k k' : κ) (a : α) (entries : List (κ × α)) :
    lookup k' (place k a entries) = if compare k' k = .eq then some a else lookup k' entries := by
  induction entries with
  | nil => cases hk : compare k' k <;> simp [place, lookup, hk]
  | cons entry rest ih =>
    rw [place]
    cases hk : compare k entry.1 with
    | lt =>
      cases hk' : compare k' k with
      | lt =>
        have hlt := Std.TransCmp.lt_trans hk' hk
        simp [lookup, hk', hlt]
      | eq => simp [lookup, hk']
      | gt => simp [lookup, hk']
    | eq =>
      have heq : k = entry.1 := Std.LawfulEqOrd.eq_of_compare hk
      cases hk' : compare k' k <;> simp [lookup, hk', ← heq]
    | gt =>
      simp only [lookup, ih]
      cases hk' : compare k' entry.1 with
      | lt =>
        have hlt : compare k' k = .lt := Std.TransCmp.lt_trans hk' (Std.OrientedCmp.lt_of_gt hk)
        simp [hlt]
      | eq =>
        have heq : k' = entry.1 := Std.LawfulEqOrd.eq_of_compare hk'
        have hlt : compare k' k = .lt := heq ▸ Std.OrientedCmp.lt_of_gt hk
        simp [hlt]
      | gt => rfl

theorem lookup_remove (k k' : κ) {entries : List (κ × α)}
    (h : entries.Pairwise fun a b => compare a.1 b.1 = .lt) :
    lookup k' (remove k entries) = if compare k' k = .eq then none else lookup k' entries := by
  apply Option.ext
  intro a
  rw [lookup_eq_some_iff (h.sublist (remove_sublist k entries))]
  have hmem : (k', a) ∈ remove k entries ↔ k' ≠ k ∧ (k', a) ∈ entries := by
    induction entries with
    | nil => simp [remove]
    | cons entry rest ih =>
      obtain ⟨hfirst, hrest⟩ := List.pairwise_cons.1 h
      rw [remove]
      cases hk : compare k entry.1 with
      | lt =>
        refine ⟨fun hm => ⟨?_, hm⟩, And.right⟩
        rintro rfl
        rcases List.mem_cons.1 hm with rfl | hm
        · simp at hk
        · have hlt := Std.TransCmp.lt_trans hk (hfirst _ hm)
          simp at hlt
      | eq =>
        have heq : k = entry.1 := Std.LawfulEqOrd.eq_of_compare hk
        constructor
        · intro hm
          refine ⟨?_, .tail _ hm⟩
          rintro rfl
          have hlt := hfirst _ hm
          rw [← heq] at hlt
          simp at hlt
        · rintro ⟨hne, hm⟩
          rcases List.mem_cons.1 hm with he | hm
          · exact absurd (heq ▸ congrArg Prod.fst he) hne
          · exact hm
      | gt =>
        have hne : entry.1 ≠ k := by
          rintro rfl
          simp at hk
        rw [List.mem_cons, ih hrest, List.mem_cons]
        constructor
        · rintro (he | ⟨hk', hm⟩)
          · exact ⟨fun heq => hne (heq ▸ (congrArg Prod.fst he).symm), .inl he⟩
          · exact ⟨hk', .inr hm⟩
        · rintro ⟨hk', he | hm⟩
          · exact .inl he
          · exact .inr ⟨hk', hm⟩
  rw [hmem, ← lookup_eq_some_iff h]
  by_cases hk : k' = k
  · simp [hk]
  · have hne : compare k' k ≠ .eq := fun heq => hk (Std.LawfulEqOrd.eq_of_compare heq)
    simp [hk, hne]

theorem get?_eq_some_iff {m : OrdMap κ α} {k : κ} {a : α} :
    m.get? k = some a ↔ (k, a) ∈ m.toList := lookup_eq_some_iff m.sorted

theorem get?_insert (m : OrdMap κ α) (k k' : κ) (a : α) :
    (m.insert k a).get? k' = if compare k' k = .eq then some a else m.get? k' :=
  lookup_place k k' a m.toList

@[simp] theorem get?_insert_self (m : OrdMap κ α) (k : κ) (a : α) :
    (m.insert k a).get? k = some a := by simp [get?_insert]

theorem get?_insert_of_ne (m : OrdMap κ α) {k k' : κ} (a : α) (h : k' ≠ k) :
    (m.insert k a).get? k' = m.get? k' := by
  rw [get?_insert, if_neg fun heq => h (Std.LawfulEqOrd.eq_of_compare heq)]

theorem get?_erase (m : OrdMap κ α) (k k' : κ) :
    (m.erase k).get? k' = if compare k' k = .eq then none else m.get? k' :=
  lookup_remove k k' m.sorted

@[simp] theorem get?_erase_self (m : OrdMap κ α) (k : κ) : (m.erase k).get? k = none := by
  simp [get?_erase]

theorem get?_erase_of_ne (m : OrdMap κ α) {k k' : κ} (h : k' ≠ k) :
    (m.erase k).get? k' = m.get? k' := by
  rw [get?_erase, if_neg fun heq => h (Std.LawfulEqOrd.eq_of_compare heq)]

theorem contains_iff {m : OrdMap κ α} {k : κ} : m.contains k = true ↔ ∃ a, (k, a) ∈ m.toList := by
  rw [contains, Option.isSome_iff_exists]
  exact exists_congr fun a => get?_eq_some_iff

end CounterMesh.OrdMap
