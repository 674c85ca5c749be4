import CounterMesh.OrdMap.Lookup
import CounterMesh.Proofs.OrdMap.Scan

/-!
# Maps that are listed and read back

A map is written as the list of its entries, under other keys if need be, and
read into a map again, whose order need not be that of the first. As long as
different keys are written differently, the way back gives the same map.
-/

namespace CounterMesh

/-- A pass over a list whose steps all succeed. -/
theorem mapM_eq_pure {m : Type u → Type v} [Monad m] [LawfulMonad m] {α : Type w} {β : Type u}
    {f : α → m β} {g : α → β} {l : List α} (h : ∀ a ∈ l, f a = pure (g a)) :
    l.mapM f = pure (l.map g) := by
  induction l with
  | nil => rfl
  | cons a rest ih =>
      rw [List.mapM_cons, h a List.mem_cons_self, ih fun b hb => h b (.tail _ hb), pure_bind,
        pure_bind]
      rfl

/-- A list all of whose elements are images is the image of a list. -/
theorem exists_map_eq {α : Type u} {β : Type v} {f : α → β} {p : α → Prop} {l : List β}
    (h : ∀ b ∈ l, ∃ a, p a ∧ f a = b) : ∃ l' : List α, (∀ a ∈ l', p a) ∧ l'.map f = l := by
  induction l with
  | nil => exact ⟨[], nofun, rfl⟩
  | cons b rest ih =>
      obtain ⟨a, ha, rfl⟩ := h b List.mem_cons_self
      obtain ⟨l', hl', rfl⟩ := ih fun b hb => h b (.tail _ hb)
      exact ⟨a :: l', List.forall_mem_cons.2 ⟨ha, hl'⟩, rfl⟩

section Pass

variable {ε α β : Type} {f : α → Except ε β} {l : List α} {l' : List β}

/-- A pass over a list that succeeds has succeeded at every step. -/
theorem mapM_cons_eq_ok {a : α} (h : (a :: l).mapM f = .ok l') :
    ∃ b bs, f a = .ok b ∧ l.mapM f = .ok bs ∧ l' = b :: bs := by
  rw [List.mapM_cons] at h
  cases ha : f a with
  | error e =>
      rw [ha] at h
      cases h
  | ok b =>
      cases hrest : l.mapM f with
      | error e =>
          rw [ha, hrest] at h
          cases h
      | ok bs =>
          rw [ha, hrest] at h
          cases h
          exact ⟨b, bs, rfl, rfl, rfl⟩

/-- What a pass over a list gives comes from its elements. -/
theorem exists_of_mapM_eq_ok (h : l.mapM f = .ok l') : ∀ b ∈ l', ∃ a ∈ l, f a = .ok b := by
  induction l generalizing l' with
  | nil =>
      cases h
      exact nofun
  | cons a rest ih =>
      obtain ⟨b, bs, ha, hrest, rfl⟩ := mapM_cons_eq_ok h
      refine List.forall_mem_cons.2 ⟨⟨a, List.mem_cons_self, ha⟩, fun b' hb' => ?_⟩
      obtain ⟨a', ha', hb'⟩ := ih hrest b' hb'
      exact ⟨a', .tail _ ha', hb'⟩

/-- A pass over a list gives something for each of its elements. -/
theorem exists_mem_of_mapM_eq_ok (h : l.mapM f = .ok l') : ∀ a ∈ l, ∃ b ∈ l', f a = .ok b := by
  induction l generalizing l' with
  | nil => exact nofun
  | cons a rest ih =>
      obtain ⟨b, bs, ha, hrest, rfl⟩ := mapM_cons_eq_ok h
      refine List.forall_mem_cons.2 ⟨⟨b, List.mem_cons_self, ha⟩, fun a' ha' => ?_⟩
      obtain ⟨b', hb', hfa'⟩ := ih hrest a' ha'
      exact ⟨b', .tail _ hb', hfa'⟩

/-- A pass over a list fails as one of its steps does. -/
theorem exists_of_mapM_eq_error {e : ε} (h : l.mapM f = .error e) : ∃ a ∈ l, f a = .error e := by
  induction l with
  | nil => cases h
  | cons a rest ih =>
      rw [List.mapM_cons] at h
      cases ha : f a with
      | error e' =>
          rw [ha] at h
          cases h
          exact ⟨a, List.mem_cons_self, ha⟩
      | ok b =>
          cases hrest : rest.mapM f with
          | error e' =>
              rw [ha, hrest] at h
              cases h
              obtain ⟨a', ha', he⟩ := ih hrest
              exact ⟨a', .tail _ ha', he⟩
          | ok bs =>
              rw [ha, hrest] at h
              cases h

/-- What holds between any two elements of a list holds between what a pass gives for them. -/
theorem pairwise_of_mapM_eq_ok {R : α → α → Prop} {S : β → β → Prop} (h : l.mapM f = .ok l')
    (hpairs : l.Pairwise R)
    (hstep : ∀ a a' b b', R a a' → f a = .ok b → f a' = .ok b' → S b b') : l'.Pairwise S := by
  induction l generalizing l' with
  | nil =>
      cases h
      exact .nil
  | cons a rest ih =>
      obtain ⟨hfirst, hpairs⟩ := List.pairwise_cons.1 hpairs
      obtain ⟨b, bs, ha, hrest, rfl⟩ := mapM_cons_eq_ok h
      refine List.pairwise_cons.2 ⟨fun b' hb' => ?_, ih hrest hpairs⟩
      obtain ⟨a', ha', hfa'⟩ := exists_of_mapM_eq_ok hrest b' hb'
      exact hstep _ _ _ _ (hfirst a' ha') ha hfa'

end Pass

namespace OrdMap

variable {κ : Type u} {α : Type v} [Ord κ] [Std.LawfulEqOrd κ]

theorem nodup_keys (m : OrdMap κ α) : m.keys.Nodup := by
  rw [keys, List.Nodup, List.pairwise_map]
  refine m.sorted.imp fun {a b} hlt heq => ?_
  rw [heq] at hlt
  simp at hlt

variable [Std.TransOrd κ]

theorem contains_iff_mem_keys {m : OrdMap κ α} {k : κ} : m.contains k = true ↔ k ∈ m.keys := by
  rw [contains_iff, keys, List.mem_map]
  constructor
  · rintro ⟨a, h⟩
    exact ⟨(k, a), h, rfl⟩
  · rintro ⟨⟨_, a⟩, h, rfl⟩
    exact ⟨a, h⟩

/-- A list without repeated keys lists the map that is read from it. -/
theorem mem_ofList {entries : List (κ × α)} (h : (entries.map (·.1)).Nodup) {e : κ × α} :
    e ∈ (ofList entries).toList ↔ e ∈ entries := by
  -- The entries that are still to be read have keys of their own, so that they replace nothing.
  have hfold : ∀ m : OrdMap κ α, (∀ k ∈ entries.map (·.1), m.get? k = none) →
      ((entries.foldl (fun m entry => m.insert entry.1 entry.2) m).get? e.1 = some e.2 ↔
        m.get? e.1 = some e.2 ∨ e ∈ entries) := by
    induction entries with
    | nil => simp
    | cons entry rest ih =>
        obtain ⟨hfirst, hrest⟩ := List.nodup_cons.1 h
        intro m hm
        have hrest' : ∀ k ∈ rest.map (·.1), (m.insert entry.1 entry.2).get? k = none := by
          intro k hk
          rw [get?_insert_of_ne _ _ (ne_of_mem_of_not_mem hk hfirst)]
          exact hm k (.tail _ hk)
        rw [List.foldl_cons, ih hrest _ hrest', List.mem_cons, ← or_assoc]
        refine or_congr_left ?_
        by_cases hkey : e.1 = entry.1
        · rw [hkey, get?_insert_self, hm entry.1 List.mem_cons_self]
          simp only [Option.some.injEq, reduceCtorEq, false_or]
          exact ⟨fun hvalue => Prod.ext hkey hvalue.symm, fun he => he ▸ rfl⟩
        · rw [get?_insert_of_ne _ _ hkey]
          exact (or_iff_left fun he => hkey (congrArg Prod.fst he)).symm
  have hread := hfold .empty fun _ _ => rfl
  rw [get?_empty] at hread
  rw [← get?_eq_some_iff]
  exact hread.trans (or_iff_right (Option.some_ne_none _).symm)

/-- What a map holds that is read from a list stands in the list. -/
theorem mem_of_get?_ofList {entries : List (κ × α)} {k : κ} {a : α}
    (h : (ofList entries).get? k = some a) : (k, a) ∈ entries := by
  have hfold : ∀ m : OrdMap κ α,
      (entries.foldl (fun m entry => m.insert entry.1 entry.2) m).get? k = some a →
        m.get? k = some a ∨ (k, a) ∈ entries := by
    clear h
    induction entries with
    | nil => exact fun m h => .inl h
    | cons entry rest ih =>
        intro m h
        rcases ih _ h with hm | hrest
        · by_cases hkey : k = entry.1
          · subst hkey
            rw [get?_insert_self, Option.some.injEq] at hm
            subst hm
            exact .inr List.mem_cons_self
          · rw [get?_insert_of_ne _ _ hkey] at hm
            exact .inl hm
        · exact .inr (.tail _ hrest)
  rcases hfold .empty h with hempty | hmem
  · rw [get?_empty] at hempty
    cases hempty
  · exact hmem

/-- The keys of a list are the keys of the map that is read from it. -/
theorem contains_ofList {entries : List (κ × α)} {k : κ} :
    (ofList entries).contains k = true ↔ k ∈ entries.map (·.1) := by
  have hfold : ∀ (l : List (κ × α)) (m : OrdMap κ α),
      (l.foldl (fun m entry => m.insert entry.1 entry.2) m).contains k = true ↔
        m.contains k = true ∨ k ∈ l.map (·.1) := by
    intro l
    induction l with
    | nil => simp
    | cons entry l ih =>
        intro m
        rw [List.foldl_cons, ih, List.map_cons, List.mem_cons, ← or_assoc]
        refine or_congr_left ?_
        rw [contains, contains]
        by_cases hkey : k = entry.1
        · simp [hkey, get?_insert_self]
        · simp [get?_insert_of_ne _ _ hkey, hkey]
  exact (hfold entries .empty).trans (or_iff_right (by simp [contains, get?_empty]))

/-- Nothing is read from the empty list only. -/
theorem isEmpty_ofList (entries : List (κ × α)) : (ofList entries).isEmpty = entries.isEmpty := by
  cases entries with
  | nil => rfl
  | cons entry rest =>
      have hcontains : (ofList (entry :: rest)).contains entry.1 = true :=
        contains_ofList.2 List.mem_cons_self
      obtain ⟨a, ha⟩ := Option.isSome_iff_exists.1 hcontains
      rw [isEmpty, List.isEmpty_cons, List.isEmpty_eq_false_iff]
      exact List.ne_nil_of_mem (get?_eq_some_iff.1 ha)

/-- A map is read from its own list. -/
theorem ofList_toList (m : OrdMap κ α) : ofList m.toList = m := by
  refine ext_get? fun k a => ?_
  rw [get?_eq_some_iff, get?_eq_some_iff, mem_ofList m.nodup_keys]

/-- Entries are written under other keys, and are read back in the order of these. -/
theorem exists_mapM_ofList {κ' : Type u'} {α' : Type v'} [Ord κ'] [Std.TransOrd κ']
    [Std.LawfulEqOrd κ'] {ε : Type} {δ : Type} (m : OrdMap κ α) {key : κ → κ'}
    (hkey : Function.Injective key) (value : α → α') (read : κ' × α' → Except ε δ)
    (wrap : κ × α → δ)
    (hread : ∀ e ∈ m.toList, read (Prod.map key value e) = .ok (wrap e)) :
    ∃ entries, (ofList (m.toList.map (Prod.map key value))).toList.mapM read =
      .ok (entries.map wrap) ∧ ofList entries = m := by
  have hkeys : ((m.toList.map (Prod.map key value)).map (·.1)).Nodup := by
    have hnodup := m.nodup_keys.map hkey
    rw [keys, List.map_map] at hnodup
    rwa [List.map_map]
  obtain ⟨entries, hentries, hmap⟩ := exists_map_eq
    fun b (hb : b ∈ (ofList (m.toList.map (Prod.map key value))).toList) =>
      List.mem_map.1 ((mem_ofList hkeys).1 hb)
  refine ⟨entries, ?_, ?_⟩
  · rw [← hmap, List.mapM_map]
    exact mapM_eq_pure fun e he => hread e (hentries e he)
  · have hnodup : (entries.map (·.1)).Nodup := by
      have hlisted := (ofList (m.toList.map (Prod.map key value))).nodup_keys
      rw [keys, ← hmap, List.map_map] at hlisted
      refine List.Nodup.of_map key ?_
      rwa [List.map_map]
    refine ext_get? fun k a => ?_
    rw [get?_eq_some_iff, get?_eq_some_iff, mem_ofList hnodup]
    refine ⟨hentries _, fun hka => ?_⟩
    have hmem : (key k, value a) ∈ entries.map (Prod.map key value) := by
      rw [hmap]
      exact (mem_ofList hkeys).2 (List.mem_map_of_mem hka)
    obtain ⟨⟨k', a'⟩, he, heq⟩ := List.mem_map.1 hmem
    obtain rfl := hkey (Prod.mk.inj heq).1
    have hsame : a' = a := Option.some.inj
      ((get?_eq_some_iff.2 (hentries _ he)).symm.trans (get?_eq_some_iff.2 hka))
    exact hsame ▸ he

end OrdMap

end CounterMesh
