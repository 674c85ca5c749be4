import CounterMesh.Proofs.Store.Slots

/-!
# What stands in a later catalog

A writer gives every slot that it writes the next etag, and every counter that
it lists the next id. What stands in a later catalog of a store therefore stood
in the earlier one already, or came under a number that was not given out then.
Removals take entries away and no number back.
-/

namespace CounterMesh.Catalog

variable {c c' c'' : Catalog}

/-- The second catalog is a later one of the same store: what is new in it has a number that is new
as well. -/
structure Follows (c c' : Catalog) : Prop where
  ids : ∀ {group name : String} {id : CounterId}, c'.ids group name = some id →
    c.ids group name = some id ∨ c.lastCounterId < id
  cells : ∀ {p : Place} {cell : Cell}, c'.cells p = some cell →
    c.cells p = some cell ∨ c.lastEtag < cell.etag
  lastEtag_le : c.lastEtag ≤ c'.lastEtag
  lastCounterId_le : c.lastCounterId ≤ c'.lastCounterId

namespace Follows

theorem refl (c : Catalog) : Follows c c := ⟨.inl, .inl, UInt64.le_refl _, UInt64.le_refl _⟩

theorem trans (h : Follows c c') (h' : Follows c' c'') : Follows c c'' where
  ids := by
    intro group name id hid
    rcases h'.ids hid with hid' | hlt
    · exact h.ids hid'
    · exact .inr (UInt64.lt_of_le_of_lt h.lastCounterId_le hlt)
  cells := by
    intro p cell hcell
    rcases h'.cells hcell with hcell' | hlt
    · exact h.cells hcell'
    · exact .inr (UInt64.lt_of_le_of_lt h.lastEtag_le hlt)
  lastEtag_le := UInt64.le_trans h.lastEtag_le h'.lastEtag_le
  lastCounterId_le := UInt64.le_trans h.lastCounterId_le h'.lastCounterId_le

theorem put (hroom : c.HasRoom 1) (group name : String) (serverId : ServerId) (sign : Sign)
    (value : Int64) : Follows c (c.put group name serverId sign value) where
  ids := by
    intro g n id hid
    rcases ids_put_iff.1 hid with ⟨rfl, rfl, rfl⟩ | ⟨_, hid'⟩
    · cases hlisted : c.ids g n with
      | some id => exact .inl (congrArg some (idFor_of_some hlisted).symm)
      | none =>
          rw [idFor_of_none hlisted]
          exact .inr (lt_add_one_of_room hroom.2 one_pos)
    · exact .inl hid'
  cells := by
    intro p cell hcell
    rcases cells_put_cases _ _ _ _ _ _ hcell with ⟨_, rfl⟩ | ⟨_, _, hcell'⟩
    · exact .inr (lt_add_one_of_room hroom.1 one_pos)
    · exact .inl hcell'
  lastEtag_le := by
    rw [lastEtag_put]
    exact UInt64.le_of_lt (lt_add_one_of_room hroom.1 one_pos)
  lastCounterId_le := lastCounterId_le_put hroom

theorem forget (c : Catalog) (counterId : CounterId) : Follows c (c.forget counterId) where
  ids := fun hid => .inl (ids_forget_eq_some_iff.1 hid).1
  cells := fun hcell => .inl (cells_forget_eq_some_iff.1 hcell).1
  lastEtag_le := UInt64.le_refl _
  lastCounterId_le := UInt64.le_refl _

/-- A slot under its name: the id of its counter is an old one if the slot is. -/
theorem slot (h : Follows c c') (hs : c.Sound) {k : SlotName} {cell : Cell}
    (hk : c'.slot k = some cell) : c.slot k = some cell ∨ c.lastEtag < cell.etag := by
  obtain ⟨id, hid, hcell⟩ := slot_eq_some_iff.1 hk
  refine (h.cells hcell).imp (fun hcell' => ?_) fun hlt => hlt
  obtain ⟨g, n, hlisted⟩ := hs.id_of_slot hcell'
  have hid' : c.ids k.group k.name = some id :=
    (h.ids hid).resolve_right (UInt64.not_lt.2 (hs.id_le hlisted))
  exact slot_eq_some_iff.2 ⟨id, hid', hcell'⟩

/-- An id that was given out before is that of the same counter. -/
theorem ids_of_le (h : Follows c c') {group name : String} {id : CounterId}
    (hid : c'.ids group name = some id) (hle : id ≤ c.lastCounterId) :
    c.ids group name = some id :=
  (h.ids hid).resolve_right (UInt64.not_lt.2 hle)

end Follows

namespace Evolves

variable {purge : Prop} {k : Nat}

theorem follows (h : Evolves purge k c c') (hroom : c.HasRoom k) : Follows c c' := by
  induction h with
  | refl k c => exact .refl c
  | put h group name serverId sign value reserved ih =>
      exact (ih (hroom.mono (Nat.le_succ _))).trans
        (.put (h.hasRoom hroom) group name serverId sign value)
  | forget h counterId hpurge ih => exact (ih hroom).trans (.forget _ counterId)
  | cursor h serverId etag ih =>
      have hlast := ih hroom
      exact ⟨hlast.ids, hlast.cells, hlast.lastEtag_le, hlast.lastCounterId_le⟩
  | replication h document ih =>
      have hlast := ih hroom
      exact ⟨hlast.ids, hlast.cells, hlast.lastEtag_le, hlast.lastCounterId_le⟩

end Evolves

/-- A write of a counter with a name leaves all counters with one. -/
theorem AllNamed.put {group name : String} (hn : c.AllNamed) (hs : c.Sound) (hroom : c.HasRoom 1)
    (hnamed : Named group name) (serverId : ServerId) (sign : Sign) (value : Int64) :
    (c.put group name serverId sign value).AllNamed := by
  intro k cell hk
  rw [slot_put hs hroom] at hk
  split at hk
  · next heq =>
    rw [heq]
    exact hnamed
  · split at hk
    · cases hk
    · exact hn k cell hk

theorem AllNamed.forget (hn : c.AllNamed) (counterId : CounterId) :
    (c.forget counterId).AllNamed := by
  intro k cell hk
  obtain ⟨id, hid, hcell⟩ := slot_eq_some_iff.1 hk
  exact hn k cell (slot_eq_some_iff.2
    ⟨id, (ids_forget_eq_some_iff.1 hid).1, (cells_forget_eq_some_iff.1 hcell).1⟩)

end CounterMesh.Catalog
