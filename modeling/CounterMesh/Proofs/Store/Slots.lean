import CounterMesh.Proofs.Store.Evolution

/-!
# Slots by name

The ids of counters are a matter of each store. Stores are compared by what a
slot holds under the group and the name of its counter. A write changes one slot,
and takes the tombstone of its counter away; while no counter is deleted, it
changes one slot and no other.
-/

namespace CounterMesh

/-- Counters have a group and a name. -/
def Named (group name : String) : Prop := group.isEmpty = false ∧ name.isEmpty = false

instance (group name : String) : Decidable (Named group name) :=
  inferInstanceAs (Decidable (_ ∧ _))

/-- A slot as every store names it. -/
structure SlotName where
  group : String
  name : String
  serverId : ServerId
  sign : Sign
  deriving DecidableEq

namespace SlotName

/-- The slot of the tombstone of a counter. -/
def tombstone (group name : String) : SlotName := ⟨group, name, .nil, .positive⟩

/-- The slot belongs to this counter. -/
def Of (k : SlotName) (group name : String) : Prop := k.group = group ∧ k.name = name

instance (k : SlotName) (group name : String) : Decidable (k.Of group name) :=
  inferInstanceAs (Decidable (_ ∧ _))

theorem of_self (k : SlotName) : k.Of k.group k.name := ⟨rfl, rfl⟩

theorem of_tombstone (group name : String) : (tombstone group name).Of group name := ⟨rfl, rfl⟩

end SlotName

namespace Catalog

/-- What a slot of a listed counter holds. -/
def slot (c : Catalog) (k : SlotName) : Option Cell :=
  (c.ids k.group k.name).bind fun id => c.cells ⟨id, k.serverId, k.sign⟩

/-- All counters have a group and a name. -/
def AllNamed (c : Catalog) : Prop := ∀ k cell, c.slot k = some cell → Named k.group k.name

/-- No counter is deleted. -/
def Undeleted (c : Catalog) : Prop := ∀ counterId, ¬ c.Deleted counterId

variable {c : Catalog} {group name : String} {serverId : ServerId} {sign : Sign} {value : Int64}

theorem slot_eq_some_iff {k : SlotName} {cell : Cell} :
    c.slot k = some cell ↔
      ∃ id, c.ids k.group k.name = some id ∧ c.cells ⟨id, k.serverId, k.sign⟩ = some cell :=
  Option.bind_eq_some_iff

theorem slot_of_ids {k : SlotName} {id : CounterId} (h : c.ids k.group k.name = some id) :
    c.slot k = c.cells ⟨id, k.serverId, k.sign⟩ := by
  rw [slot, h, Option.bind_some]

theorem slot_of_not_listed {k : SlotName} (h : c.ids k.group k.name = none) : c.slot k = none := by
  rw [slot, h, Option.bind_none]

/-- Every slot has a name. -/
theorem Sound.exists_slot (h : c.Sound) {p : Place} {cell : Cell} (hcell : c.cells p = some cell) :
    ∃ group name, c.ids group name = some p.counterId ∧
      c.slot ⟨group, name, p.serverId, p.sign⟩ = some cell := by
  obtain ⟨group, name, hid⟩ := h.id_of_slot hcell
  exact ⟨group, name, hid, slot_eq_some_iff.2 ⟨p.counterId, hid, hcell⟩⟩

theorem AllNamed.listed (hn : c.AllNamed) (h : c.Sound) {id : CounterId}
    (hid : c.ids group name = some id) : Named group name := by
  obtain ⟨p, cell, rfl, hcell⟩ := h.slot_of_id hid
  exact hn ⟨group, name, p.serverId, p.sign⟩ cell (slot_eq_some_iff.2 ⟨_, hid, hcell⟩)

theorem AllNamed.live (hn : c.AllNamed) (h : c.Sound) (hlive : c.Live group name) :
    Named group name := by
  obtain ⟨id, hid, _⟩ := hlive
  exact hn.listed h hid

theorem Sound.slot_etag_pos (h : c.Sound) {k : SlotName} {cell : Cell}
    (hk : c.slot k = some cell) : 0 < cell.etag := by
  obtain ⟨id, _, hcell⟩ := slot_eq_some_iff.1 hk
  exact h.etag_pos hcell

theorem Sound.slot_etag_le (h : c.Sound) {k : SlotName} {cell : Cell} (hk : c.slot k = some cell) :
    cell.etag ≤ c.lastEtag := by
  obtain ⟨id, _, hcell⟩ := slot_eq_some_iff.1 hk
  exact h.etag_le hcell

/-- Slots with one etag are the same slot. -/
theorem Sound.slot_unique (h : c.Sound) {k k' : SlotName} {cell cell' : Cell}
    (hk : c.slot k = some cell) (hk' : c.slot k' = some cell') (hetag : cell.etag = cell'.etag) :
    k = k' ∧ cell = cell' := by
  obtain ⟨id, hid, hcell⟩ := slot_eq_some_iff.1 hk
  obtain ⟨id', hid', hcell'⟩ := slot_eq_some_iff.1 hk'
  obtain ⟨rfl, hserver, hsign⟩ := Place.mk.inj (h.etag_unique hcell hcell' hetag)
  obtain ⟨hgroup, hname⟩ := h.id_unique hid hid'
  obtain ⟨group, name, serverId, sign⟩ := k
  obtain ⟨group', name', serverId', sign'⟩ := k'
  cases hgroup
  cases hname
  cases hserver
  cases hsign
  exact ⟨rfl, Option.some.inj (hcell.symm.trans hcell')⟩

/-- The slots of an undeleted catalog belong to nodes. -/
theorem Undeleted.slot_nil (hu : c.Undeleted) (h : c.Sound) {k : SlotName} {cell : Cell}
    (hk : c.slot k = some cell) : k.serverId ≠ .nil := by
  obtain ⟨id, _, hcell⟩ := slot_eq_some_iff.1 hk
  intro hnil
  have hp := h.reserved hcell hnil
  rw [hp] at hcell
  exact hu id (by rw [Deleted, hcell]; rfl)

theorem Undeleted.put (hu : c.Undeleted) (hserver : serverId ≠ .nil) :
    (c.put group name serverId sign value).Undeleted := by
  intro id hid
  rcases deleted_put_iff.1 hid with ⟨_, hp⟩ | ⟨_, hd⟩
  · exact hserver (congrArg Place.serverId hp)
  · exact hu id hd

/-- Where a slot is or would be written, also that of a counter that is not listed yet. -/
theorem Sound.slot_eq_cells (h : c.Sound) (hroom : c.HasRoom 1) (k : SlotName) :
    c.slot k = c.cells (c.placeFor k.group k.name k.serverId k.sign) := by
  cases hid : c.ids k.group k.name with
  | some id => rw [slot_of_ids hid, placeFor, idFor_of_some hid]
  | none =>
      -- An id that was not given out yet has no slots.
      rw [slot_of_not_listed hid, placeFor, idFor_of_none hid, eq_comm,
        Option.eq_none_iff_forall_ne_some]
      intro cell hcell
      obtain ⟨g, n, hid'⟩ := h.id_of_slot hcell
      have hlast := lt_add_one_of_room hroom.2 one_pos
      exact absurd hlast (UInt64.not_lt.2 (h.id_le hid'))

/-- A write changes the slot of its name, and takes the tombstone of the counter away unless it is
this slot. -/
theorem slot_put (h : c.Sound) (hroom : c.HasRoom 1) (k : SlotName) :
    (c.put group name serverId sign value).slot k =
      if k = ⟨group, name, serverId, sign⟩ then some ⟨value, c.lastEtag + 1⟩
      else if k = .tombstone group name then none else c.slot k := by
  obtain ⟨g, n, server, s⟩ := k
  by_cases hname : g = group ∧ n = name
  · obtain ⟨rfl, rfl⟩ := hname
    rw [slot_of_ids (k := ⟨g, n, server, s⟩) (ids_put_self ..)]
    by_cases hp : (⟨c.idFor g n, server, s⟩ : Place) = c.placeFor g n serverId sign
    · obtain ⟨_, rfl, rfl⟩ := Place.mk.inj hp
      rw [if_pos rfl]
      exact cells_put_self ..
    · rw [if_neg]
      · by_cases ht : (⟨c.idFor g n, server, s⟩ : Place) = .tombstone (c.idFor g n)
        · obtain ⟨_, rfl, rfl⟩ := Place.mk.inj ht
          refine Eq.trans ?_ (if_pos rfl).symm
          exact cells_put_tombstone _ _ _ _ _ _ (ht ▸ Ne.symm hp)
        · rw [if_neg, h.slot_eq_cells hroom]
          · exact cells_put_of_ne _ _ _ _ _ _ hp ht
          · intro hk
            obtain ⟨_, _, rfl, rfl⟩ := SlotName.mk.inj hk
            exact ht rfl
      · intro hk
        obtain ⟨_, _, rfl, rfl⟩ := SlotName.mk.inj hk
        exact hp rfl
  · have hne : ∀ k : SlotName, k.Of group name → (⟨g, n, server, s⟩ : SlotName) ≠ k := by
      rintro k hk rfl
      exact hname hk
    rw [if_neg (hne _ ⟨rfl, rfl⟩), if_neg (hne _ (SlotName.of_tombstone ..)), slot, slot,
      ids_put_of_ne _ _ _ _ _ _ hname]
    cases hid : c.ids g n with
    | none => rfl
    | some id =>
        have hother : id ≠ c.idFor group name := by
          rintro rfl
          exact hname (h.idFor_unique hroom hid)
        refine cells_put_of_ne _ _ _ _ _ _ ?_ ?_
        · intro hp
          exact hother (congrArg Place.counterId hp)
        · intro hp
          exact hother (congrArg Place.counterId hp)

theorem Undeleted.slot_tombstone (hu : c.Undeleted) (group name : String) :
    c.slot (.tombstone group name) = none := by
  cases hid : c.ids group name with
  | none => exact slot_of_not_listed hid
  | some id =>
      rw [slot_of_ids hid, ← Option.not_isSome_iff_eq_none]
      exact hu id

/-- While no counter is deleted, a write changes the slot of its name and no other. -/
theorem Undeleted.slot_put (hu : c.Undeleted) (h : c.Sound) (hroom : c.HasRoom 1) (k : SlotName) :
    (c.put group name serverId sign value).slot k =
      if k = ⟨group, name, serverId, sign⟩ then some ⟨value, c.lastEtag + 1⟩ else c.slot k := by
  rw [Catalog.slot_put h hroom]
  split
  · rfl
  · split
    · next ht => rw [ht, hu.slot_tombstone]
    · rfl

/-- The catalog changed slots, each of them under an etag that was not given out before; `changed`
says which slots, and to which values. -/
structure Advances (changed : SlotName → Int64 → Prop) (c c' : Catalog) : Prop where
  slot : ∀ k, c'.slot k = c.slot k ∨
    ∃ cell, c'.slot k = some cell ∧ c.lastEtag < cell.etag ∧ changed k cell.value
  lastEtag_le : c.lastEtag ≤ c'.lastEtag

namespace Advances

variable {changed : SlotName → Int64 → Prop} {c' : Catalog}

theorem refl (c : Catalog) : Advances changed c c := ⟨fun _ => .inl rfl, UInt64.le_refl _⟩

theorem mono {changed' : SlotName → Int64 → Prop} (h : Advances changed c c')
    (himp : ∀ k value, changed k value → changed' k value) : Advances changed' c c' where
  slot := by
    intro k
    refine (h.slot k).imp id ?_
    rintro ⟨cell, hcell, hlt, hchanged⟩
    exact ⟨cell, hcell, hlt, himp k _ hchanged⟩
  lastEtag_le := h.lastEtag_le

/-- A slot is never taken away. -/
theorem exists_slot (h : Advances changed c c') {k : SlotName} {cell : Cell}
    (hk : c.slot k = some cell) : ∃ cell', c'.slot k = some cell' := by
  rcases h.slot k with heq | ⟨cell', hcell', _⟩
  · exact ⟨cell, heq.trans hk⟩
  · exact ⟨cell', hcell'⟩

/-- A slot whose etag was given out before holds what it held. -/
theorem slot_of_etag_le (h : Advances changed c c') {k : SlotName} {cell : Cell}
    (hk : c'.slot k = some cell) (hle : cell.etag ≤ c.lastEtag) : c.slot k = some cell := by
  rcases h.slot k with heq | ⟨cell', hcell', hlt, _⟩
  · exact heq.symm.trans hk
  · rw [hk, Option.some.injEq] at hcell'
    exact absurd (hcell' ▸ hlt) (UInt64.not_lt.2 hle)

end Advances

/-- The value of a slot is found by its name. -/
theorem index_valueOf? {t : Transaction} (h : t.trees.Shows c.ledger) (group name : String)
    (owner : Owner) (sign : Sign) :
    Index.valueOf? t group name owner sign =
      .ok ((c.slot ⟨group, name, owner.server, sign⟩).map Cell.value) := by
  rw [Index.valueOf?, index_anyId? h]
  cases hid : c.ids group name with
  | none =>
      rw [slot_of_not_listed hid]
      rfl
  | some id =>
      rw [slot_of_ids hid]
      have hkey := Place.bytes_slotKey id owner sign
      simp only [bind, Except.bind, hkey, index_slotValue? h]
      rfl

/-- The etag of a slot is found by its name. -/
theorem index_etagOf? {t : Transaction} (h : t.trees.Shows c.ledger) (group name : String)
    (owner : Owner) (sign : Sign) :
    Index.etagOf? t group name owner sign =
      .ok ((c.slot ⟨group, name, owner.server, sign⟩).map Cell.etag) := by
  rw [Index.etagOf?, index_anyId? h]
  cases hid : c.ids group name with
  | none =>
      rw [slot_of_not_listed hid]
      rfl
  | some id =>
      rw [slot_of_ids hid]
      obtain ⟨found, hget, hfound⟩ :=
        Transaction.get_of_shows h .etags ⟨id, owner.server, sign⟩
      obtain rfl : found = c.etagAt ⟨id, owner.server, sign⟩ := Option.ext hfound
      have hget' : t.get Layout.keyToEtag (SlotKey.bytes ⟨id, owner, sign⟩) =
          .ok ((c.etagAt ⟨id, owner.server, sign⟩).map Word.big) := by
        rw [Place.bytes_slotKey]
        exact hget
      simp only [bind, Except.bind, hget', etagAt]
      cases c.cells ⟨id, owner.server, sign⟩ with
      | none => rfl
      | some cell =>
          simp only [Option.map_some, Stored.word_big]
          rfl

end Catalog

end CounterMesh
