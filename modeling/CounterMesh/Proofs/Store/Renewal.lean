import CounterMesh.Proofs.Store.Slots

/-!
# Slots of deleted counters

A deletion puts the tombstone of its counter beside the other slots; the write
of any other slot takes it away again. Under their names the slots of a store
therefore change in three ways: a slot is written under a fresh etag, a
tombstone goes because another slot of its counter was written under a fresh
etag, or nothing happens.
-/

namespace CounterMesh.Catalog

variable {c c' c'' : Catalog} {group name : String} {serverId : ServerId} {sign : Sign}
variable {value : Int64}

/-- The counter of this name is deleted. -/
def Dead (c : Catalog) (group name : String) : Prop := (c.slot (.tombstone group name)).isSome

theorem dead_iff : c.Dead group name ↔ ∃ id, c.ids group name = some id ∧ c.Deleted id := by
  rw [Dead, Option.isSome_iff_exists]
  constructor
  · rintro ⟨cell, hk⟩
    obtain ⟨id, hid, hcell⟩ := slot_eq_some_iff.1 hk
    exact ⟨id, hid, Option.isSome_iff_exists.2 ⟨cell, hcell⟩⟩
  · rintro ⟨id, hid, hd⟩
    obtain ⟨cell, hcell⟩ := Option.isSome_iff_exists.1 hd
    exact ⟨cell, slot_eq_some_iff.2 ⟨id, hid, hcell⟩⟩

theorem isSome_liveId?_iff : (c.liveId? group name).isSome = true ↔ c.Live group name := by
  rw [Option.isSome_iff_exists]
  exact exists_congr fun id => c.liveId?_eq_some_iff group name

theorem isSome_deletedId?_iff : (c.deletedId? group name).isSome = true ↔ c.Dead group name := by
  rw [dead_iff, Option.isSome_iff_exists]
  exact exists_congr fun id => c.deletedId?_eq_some_iff group name

theorem Undeleted.not_dead (hu : c.Undeleted) (group name : String) : ¬ c.Dead group name := by
  rw [dead_iff]
  rintro ⟨id, _, hd⟩
  exact hu id hd

theorem Sound.undeleted_iff (h : c.Sound) :
    c.Undeleted ↔ ∀ group name, ¬ c.Dead group name := by
  refine ⟨Undeleted.not_dead, fun hnot id hd => ?_⟩
  obtain ⟨cell, hcell⟩ := Option.isSome_iff_exists.1 hd
  obtain ⟨group, name, hid⟩ := h.id_of_slot hcell
  exact hnot group name (dead_iff.2 ⟨id, hid, hd⟩)

/-- A counter with a slot is live unless it is deleted. -/
theorem live_iff_not_dead {k : SlotName} {cell : Cell} (hk : c.slot k = some cell) :
    c.Live k.group k.name ↔ ¬ c.Dead k.group k.name := by
  obtain ⟨id, hid, _⟩ := slot_eq_some_iff.1 hk
  rw [dead_iff]
  constructor
  · rintro ⟨id', hid', hnot⟩ ⟨id'', hid'', hd⟩
    rw [hid', Option.some.injEq] at hid''
    exact hnot (hid'' ▸ hd)
  · exact fun hnot => ⟨id, hid, fun hd => hnot ⟨id, hid, hd⟩⟩

theorem Live.not_dead (h : c.Live group name) : ¬ c.Dead group name := by
  obtain ⟨id, hid, hnot⟩ := h
  rw [dead_iff]
  rintro ⟨id', hid', hd⟩
  rw [hid, Option.some.injEq] at hid'
  exact hnot (hid' ▸ hd)

/-- The reserved id has no slots but tombstones. -/
theorem Sound.eq_tombstone (h : c.Sound) {k : SlotName} {cell : Cell} (hk : c.slot k = some cell)
    (hnil : k.serverId = .nil) : k = .tombstone k.group k.name := by
  obtain ⟨id, _, hcell⟩ := slot_eq_some_iff.1 hk
  obtain ⟨_, _, hsign⟩ := Place.mk.inj (h.reserved hcell hnil)
  obtain ⟨g, n, server, s⟩ := k
  cases hnil
  cases hsign
  rfl

/-- A tombstone is newer than all other slots of its counter. -/
theorem Sound.etag_lt_tombstone (h : c.Sound) {k : SlotName} {cell cell' : Cell}
    (hk : c.slot k = some cell) (ht : c.slot (.tombstone k.group k.name) = some cell')
    (hnode : k.serverId ≠ .nil) : cell.etag < cell'.etag := by
  obtain ⟨id, hid, hcell⟩ := slot_eq_some_iff.1 hk
  rw [slot_of_ids (k := .tombstone k.group k.name) hid] at ht
  exact h.tombstone_newest hcell ht fun hp => hnode (congrArg Place.serverId hp)

/-- All slots of a counter hold what they held. -/
def Untouched (c c' : Catalog) (group name : String) : Prop :=
  ∀ k : SlotName, k.Of group name → c'.slot k = c.slot k

theorem Untouched.refl (c : Catalog) (group name : String) : Untouched c c group name :=
  fun _ _ => rfl

theorem Untouched.trans (h : Untouched c c' group name) (h' : Untouched c' c'' group name) :
    Untouched c c'' group name :=
  fun k hk => (h' k hk).trans (h k hk)

theorem Untouched.dead_iff (h : Untouched c c' group name) :
    c'.Dead group name ↔ c.Dead group name := by
  rw [Dead, Dead, h _ (SlotName.of_tombstone ..)]

/-- A write of one counter leaves all others as they are. -/
theorem untouched_put (h : c.Sound) (hroom : c.HasRoom 1) {g n : String}
    (hname : ¬ (g = group ∧ n = name)) :
    Untouched c (c.put group name serverId sign value) g n := by
  rintro k ⟨rfl, rfl⟩
  rw [slot_put h hroom, if_neg, if_neg]
  · rintro rfl
    exact hname ⟨rfl, rfl⟩
  · rintro rfl
    exact hname ⟨rfl, rfl⟩

/-- The slots of a catalog after some writes: each is as it was, was written under an etag that was
not given out before, or is a tombstone that the write of another slot took away; `changed` says
which slots were written, and with which values. -/
structure Renews (changed : SlotName → Int64 → Prop) (c c' : Catalog) : Prop where
  slot : ∀ k, c'.slot k = c.slot k ∨
    (∃ cell, c'.slot k = some cell ∧ c.lastEtag < cell.etag ∧ changed k cell.value) ∨
    c'.slot k = none ∧ k = .tombstone k.group k.name ∧
      ∃ k' cell, k'.Of k.group k.name ∧ k'.serverId ≠ .nil ∧ c'.slot k' = some cell ∧
        c.lastEtag < cell.etag ∧ changed k' cell.value
  lastEtag_le : c.lastEtag ≤ c'.lastEtag

namespace Renews

variable {changed : SlotName → Int64 → Prop}

theorem refl (c : Catalog) : Renews changed c c := ⟨fun _ => .inl rfl, UInt64.le_refl _⟩

theorem mono {changed' : SlotName → Int64 → Prop} (h : Renews changed c c')
    (himp : ∀ k value, changed k value → changed' k value) : Renews changed' c c' where
  slot := by
    intro k
    rcases h.slot k with heq | ⟨cell, hk, hlt, hch⟩ |
      ⟨hnone, ht, k', cell, hof, hnode, hk', hlt, hch⟩
    · exact .inl heq
    · exact .inr (.inl ⟨cell, hk, hlt, himp _ _ hch⟩)
    · exact .inr (.inr ⟨hnone, ht, k', cell, hof, hnode, hk', hlt, himp _ _ hch⟩)
  lastEtag_le := h.lastEtag_le

/-- The slot of a node is never taken away. -/
theorem exists_slot (h : Renews changed c c') {k : SlotName} {cell : Cell}
    (hnode : k.serverId ≠ .nil) (hk : c.slot k = some cell) : ∃ cell', c'.slot k = some cell' := by
  rcases h.slot k with heq | ⟨cell', hk', _⟩ | ⟨_, ht, _⟩
  · exact ⟨cell, heq.trans hk⟩
  · exact ⟨cell', hk'⟩
  · exact absurd (congrArg SlotName.serverId ht) hnode

/-- A slot whose etag was given out before holds what it held. -/
theorem slot_of_etag_le (h : Renews changed c c') {k : SlotName} {cell : Cell}
    (hk : c'.slot k = some cell) (hle : cell.etag ≤ c.lastEtag) : c.slot k = some cell := by
  rcases h.slot k with heq | ⟨cell', hk', hlt, _⟩ | ⟨hnone, _⟩
  · exact heq.symm.trans hk
  · rw [hk, Option.some.injEq] at hk'
    exact absurd (hk' ▸ hlt) (UInt64.not_lt.2 hle)
  · rw [hk] at hnone
    cases hnone

/-- A slot that was not there before was written. -/
theorem changed_of_fresh (h : Renews changed c c') {k : SlotName} {cell : Cell}
    (hk : c'.slot k = some cell) (hne : c.slot k ≠ some cell) :
    c.lastEtag < cell.etag ∧ changed k cell.value := by
  rcases h.slot k with heq | ⟨cell', hk', hlt, hch⟩ | ⟨hnone, _⟩
  · exact absurd (heq.symm.trans hk) hne
  · rw [hk, Option.some.injEq] at hk'
    exact hk' ▸ ⟨hlt, hch⟩
  · rw [hk] at hnone
    cases hnone

/-- The slot of a node holds what it held if it must not be written. -/
theorem slot_eq (h : Renews changed c c') {k : SlotName} (hnode : k.serverId ≠ .nil)
    (hnot : ∀ value, ¬ changed k value) : c'.slot k = c.slot k := by
  rcases h.slot k with heq | ⟨_, _, _, hch⟩ | ⟨_, ht, _⟩
  · exact heq
  · exact absurd hch (hnot _)
  · exact absurd (congrArg SlotName.serverId ht) hnode

/-- Counters keep their names. -/
theorem allNamed (h : Renews changed c c') (hn : c.AllNamed)
    (hchanged : ∀ k value, changed k value → Named k.group k.name) : c'.AllNamed := by
  intro k cell hk
  by_cases hold : c.slot k = some cell
  · exact hn k cell hold
  · exact hchanged k _ (h.changed_of_fresh hk hold).2

/-- A counter is left as it was, or one of its slots was written. -/
theorem untouched_or (h : Renews changed c c') (group name : String) :
    Untouched c c' group name ∨ ∃ k cell, k.Of group name ∧ c'.slot k = some cell ∧
      c.lastEtag < cell.etag ∧ changed k cell.value := by
  by_cases hsame : Untouched c c' group name
  · exact .inl hsame
  · simp only [Untouched, not_forall] at hsame
    obtain ⟨k, ⟨rfl, rfl⟩, hne⟩ := hsame
    rcases h.slot k with heq | ⟨cell, hk, hlt, hch⟩ | ⟨_, _, k', cell, hof, _, hk', hlt, hch⟩
    · exact absurd heq hne
    · exact .inr ⟨k, cell, k.of_self, hk, hlt, hch⟩
    · exact .inr ⟨k', cell, hof, hk', hlt, hch⟩

theorem trans (h : Renews changed c c') (h' : Renews changed c' c'') : Renews changed c c'' where
  slot := by
    intro k
    rcases h'.slot k with heq | ⟨cell, hk, hlt, hch⟩ |
      ⟨hnone, ht, k', cell, hof, hnode, hk', hlt, hch⟩
    · rw [heq]
      rcases h.slot k with hsame | hfresh | ⟨hnone, ht, k', cell, hof, hnode, hk', hlt, hch⟩
      · exact .inl hsame
      · exact .inr (.inl hfresh)
      · -- The slot that took the tombstone away may have been written again, under a later etag.
        refine .inr (.inr ⟨hnone, ht, ?_⟩)
        rcases h'.slot k' with heq' | ⟨cell', hk'', hlt', hch'⟩ | ⟨_, ht', _⟩
        · exact ⟨k', cell, hof, hnode, heq'.trans hk', hlt, hch⟩
        · exact ⟨k', cell', hof, hnode, hk'', UInt64.lt_of_le_of_lt h.lastEtag_le hlt', hch'⟩
        · exact absurd (congrArg SlotName.serverId ht') hnode
    · exact .inr (.inl ⟨cell, hk, UInt64.lt_of_le_of_lt h.lastEtag_le hlt, hch⟩)
    · exact .inr (.inr ⟨hnone, ht, k', cell, hof, hnode, hk',
        UInt64.lt_of_le_of_lt h.lastEtag_le hlt, hch⟩)
  lastEtag_le := UInt64.le_trans h.lastEtag_le h'.lastEtag_le

theorem put (h : c.Sound) (hroom : c.HasRoom 1)
    (hchanged : changed ⟨group, name, serverId, sign⟩ value)
    (hreserved : serverId = .nil → sign = .positive) :
    Renews changed c (c.put group name serverId sign value) where
  slot := by
    intro k
    have hlt : c.lastEtag < c.lastEtag + 1 := lt_add_one_of_room hroom.1 one_pos
    have hself : (c.put group name serverId sign value).slot ⟨group, name, serverId, sign⟩ =
        some ⟨value, c.lastEtag + 1⟩ := (slot_put h hroom _).trans (if_pos rfl)
    by_cases hk : k = ⟨group, name, serverId, sign⟩
    · subst hk
      exact .inr (.inl ⟨_, hself, hlt, hchanged⟩)
    · rw [slot_put h hroom, if_neg hk]
      by_cases ht : k = .tombstone group name
      · subst ht
        refine .inr (.inr ⟨if_pos rfl, rfl, ⟨group, name, serverId, sign⟩, _, ⟨rfl, rfl⟩, ?_, hself,
          hlt, hchanged⟩)
        rintro rfl
        rw [hreserved rfl] at hk
        exact hk rfl
      · exact .inl (if_neg ht)
  lastEtag_le := by
    rw [lastEtag_put]
    exact UInt64.le_of_lt (lt_add_one_of_room hroom.1 one_pos)

/-- Without a write of a tombstone no counter is deleted. -/
theorem undeleted (h : Renews changed c c') (hs' : c'.Sound) (hu : c.Undeleted)
    (hnode : ∀ k value, changed k value → k.serverId ≠ .nil) : c'.Undeleted := by
  rw [hs'.undeleted_iff]
  intro group name hdead
  obtain ⟨cell, hk⟩ := Option.isSome_iff_exists.1 hdead
  have hfresh : c.slot (.tombstone group name) ≠ some cell := by
    rw [hu.slot_tombstone]
    nofun
  exact hnode _ _ (h.changed_of_fresh hk hfresh).2 rfl

/-- From an undeleted catalog no slot is taken away. -/
theorem advances (h : Renews changed c c') (hu : c.Undeleted) : Advances changed c c' where
  slot := by
    intro k
    rcases h.slot k with heq | hfresh | ⟨hnone, ht, _⟩
    · exact .inl heq
    · exact .inr hfresh
    · refine .inl ?_
      rw [hnone, ht, hu.slot_tombstone]
  lastEtag_le := h.lastEtag_le

end Renews

/-- The catalog comes from the first by at most `k` writes of slots that are allowed. -/
inductive Puts (allowed : SlotName → Prop) : (k : Nat) → Catalog → Catalog → Prop where
  | refl (k : Nat) (c : Catalog) : Puts allowed k c c
  | put {k : Nat} {c c' : Catalog} (h : Puts allowed k c c') (slot : SlotName) (value : Int64)
      (hallowed : allowed slot) (reserved : slot.serverId = .nil → slot.sign = .positive) :
      Puts allowed (k + 1) c (c'.put slot.group slot.name slot.serverId slot.sign value)

namespace Puts

variable {allowed : SlotName → Prop} {k j : Nat}

theorem mono (h : Puts allowed k c c') (hle : k ≤ j) : Puts allowed j c c' := by
  induction h generalizing j with
  | refl k c => exact .refl j c
  | put h slot value hallowed reserved ih =>
      obtain ⟨i, rfl⟩ : ∃ i, j = i + 1 := ⟨j - 1, by omega⟩
      exact (ih (by omega)).put slot value hallowed reserved

theorem imp {allowed' : SlotName → Prop} (h : Puts allowed k c c')
    (himp : ∀ slot, allowed slot → allowed' slot) : Puts allowed' k c c' := by
  induction h with
  | refl k c => exact .refl k c
  | put h slot value hallowed reserved ih => exact ih.put slot value (himp _ hallowed) reserved

theorem trans (h : Puts allowed k c c') (h' : Puts allowed j c' c'') :
    Puts allowed (k + j) c c'' := by
  induction h' with
  | refl j c' => exact h.mono (Nat.le_add_right _ _)
  | put h' slot value hallowed reserved ih => exact (ih h).put slot value hallowed reserved

theorem evolves {purge : Prop} (h : Puts allowed k c c') : Evolves purge k c c' := by
  induction h with
  | refl k c => exact .refl k c
  | put h slot value hallowed reserved ih => exact ih.put _ _ _ _ value reserved

theorem cursors_eq (h : Puts allowed k c c') : c'.cursors = c.cursors := by
  induction h with
  | refl k c => rfl
  | put h slot value hallowed reserved ih => exact (cursors_put ..).trans ih

theorem renews (h : Puts allowed k c c') (hs : c.Sound) (hroom : c.HasRoom k) :
    Renews (fun slot _ => allowed slot) c c' := by
  induction h with
  | refl k c => exact .refl c
  | put h slot value hallowed reserved ih =>
      have hevolves : Evolves False _ _ _ := h.evolves
      have hroom' := hroom.mono (Nat.le_succ _)
      exact (ih hs hroom').trans
        (.put (hevolves.sound hs hroom') (hevolves.hasRoom hroom) hallowed reserved)

end Puts

end CounterMesh.Catalog
