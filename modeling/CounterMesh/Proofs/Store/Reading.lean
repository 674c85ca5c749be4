import CounterMesh.Proofs.Engine.Scans
import CounterMesh.Proofs.Store.Renewal

/-!
# What readers see

A reader is told the slots of a counter in the order of their keys, and their
sum. Both follow from what the slots hold under their names, so that readers of
two stores that agree on all slots are told the same, whatever ids and etags the
stores have given.
-/

namespace CounterMesh

/-- What the key of a slot adds to the id of its counter. -/
def SlotValue.key (v : SlotValue) : Bytes := v.serverId.bytes ++ [v.sign.byte]

namespace Catalog

/-- The slots of a counter that belong to nodes, in the order of their keys. -/
structure Lists (c : Catalog) (group name : String) (slots : List SlotValue) : Prop where
  sorted : slots.Pairwise fun v v' => compare v.key v'.key = .lt
  mem_iff : ∀ v, v ∈ slots ↔ v.serverId ≠ .nil ∧
    (c.slot ⟨group, name, v.serverId, v.sign⟩).map Cell.value = some v.value

/-- The catalogs hold the same values in the same slots. -/
def SameValues (c c' : Catalog) : Prop :=
  ∀ k, (c.slot k).map Cell.value = (c'.slot k).map Cell.value

variable {c c' : Catalog} {t t' : Transaction} {group name : String} {slots slots' : List SlotValue}

theorem SameValues.symm (h : c.SameValues c') : c'.SameValues c := fun k => (h k).symm

theorem SameValues.dead_iff (h : c.SameValues c') : c.Dead group name ↔ c'.Dead group name := by
  have hsome := congrArg Option.isSome (h (.tombstone group name))
  rw [Option.isSome_map, Option.isSome_map] at hsome
  rw [Dead, Dead, hsome]

/-- Stores with the same values have the same live counters. -/
theorem SameValues.live_iff (h : c.SameValues c') (hs : c.Sound) (hs' : c'.Sound) :
    c.Live group name ↔ c'.Live group name := by
  have himp : ∀ {c c' : Catalog}, c.SameValues c' → c.Sound → c.Live group name →
      c'.Live group name := by
    intro c c' h hs hlive
    obtain ⟨id, hid, _⟩ := id hlive
    obtain ⟨p, cell, rfl, hcell⟩ := hs.slot_of_id hid
    have hk : c.slot ⟨group, name, p.serverId, p.sign⟩ = some cell :=
      slot_eq_some_iff.2 ⟨_, hid, hcell⟩
    have hvalue := h ⟨group, name, p.serverId, p.sign⟩
    rw [hk] at hvalue
    obtain ⟨cell', hk', _⟩ := Option.map_eq_some_iff.1 hvalue.symm
    exact (live_iff_not_dead hk').2 fun hdead => hlive.not_dead (h.dead_iff.2 hdead)
  exact ⟨himp h hs, himp h.symm hs'⟩

theorem Lists.congr (h : c.Lists group name slots) (hsame : c.SameValues c') :
    c'.Lists group name slots where
  sorted := h.sorted
  mem_iff := by
    intro v
    rw [h.mem_iff, hsame]

theorem Lists.unique (h : c.Lists group name slots) (h' : c.Lists group name slots') :
    slots = slots' := by
  refine OrdMap.eq_of_sorted h.sorted h'.sorted fun v => ?_
  rw [h.mem_iff, h'.mem_iff]

/-- The slots of nodes are read one after another, and tombstones are passed over. -/
theorem nodeSlots_rows (rows : List (Place × Int64)) :
    Index.nodeSlots (rows.map fun row => (row.1.bytes, Word.little row.2)) =
      .ok ((rows.filter fun row => !row.1.serverId.isNil).map fun row =>
        ⟨row.1.serverId, row.1.sign, row.2⟩) := by
  induction rows with
  | nil => rfl
  | cons row rest ih =>
      obtain ⟨p, value⟩ := row
      rw [List.map_cons, Index.nodeSlots]
      simp only [Place.decode_bytes, bind, Except.bind]
      by_cases hnil : p.serverId.isNil = true
      · have howner : p.slot.owner = .tombstone := if_pos hnil
        rw [howner, List.filter_cons_of_neg (by simp [hnil])]
        exact ih
      · have howner : p.slot.owner = .node p.serverId := if_neg hnil
        rw [howner, List.filter_cons_of_pos (by simp [hnil])]
        simp only [Stored.value_little, ih]
        rfl

/-- The slots of a listed counter. -/
theorem index_slots (h : t.trees.Shows c.ledger) {id : CounterId}
    (hid : c.ids group name = some id) :
    ∃ slots, Index.slots t id = .ok slots ∧ c.Lists group name slots := by
  obtain ⟨rows, hscan, hmem⟩ := Transaction.scanStarting_of_shows h .values (Word.big id)
  have hscan' : t.scanStarting Layout.counters (Word.big id) =
      .ok (rows.map fun row => (row.1.bytes, Word.little row.2)) := hscan
  have hid' : ∀ row ∈ rows, row.1.counterId = id := fun row hrow =>
    (Place.prefix_bytes_iff _ _).1 ((hmem row.1 row.2).1 hrow).2
  have hslots : Index.slots t id = .ok ((rows.filter fun row => !row.1.serverId.isNil).map
      fun row => ⟨row.1.serverId, row.1.sign, row.2⟩) := by
    rw [Index.slots, hscan']
    exact nodeSlots_rows rows
  refine ⟨_, hslots, ?_, fun v => ?_⟩
  · have hsorted := Transaction.sorted_scanStarting hscan'
    rw [List.pairwise_map] at hsorted
    rw [List.pairwise_map]
    refine (hsorted.sublist List.filter_sublist).imp_of_mem fun {row row'} hrow hrow' hlt => ?_
    -- All keys start with the id of the counter, so what follows it decides.
    have hself : compare (Word.big id) (Word.big id) = .eq := Std.ReflCmp.compare_self
    rw [Place.bytes_eq, Place.bytes_eq, hid' row (List.mem_filter.1 hrow).1,
      hid' row' (List.mem_filter.1 hrow').1, Bytes.compare_append rfl, hself] at hlt
    exact hlt
  · have hnode : ∀ server : ServerId, (!server.isNil) = true ↔ server ≠ .nil := by
      intro server
      rw [Bool.not_eq_true', Bool.eq_false_iff, ne_eq, ne_eq, ServerId.isNil_iff]
    obtain ⟨server, sign, value⟩ := v
    rw [slot_of_ids (k := ⟨group, name, server, sign⟩) hid, List.mem_map]
    constructor
    · rintro ⟨⟨p, value'⟩, hrow, heq⟩
      obtain ⟨rfl, rfl, rfl⟩ := SlotValue.mk.inj heq
      obtain ⟨hrow, hnil⟩ := List.mem_filter.1 hrow
      have hvalue : c.valueAt p = some value' := ((hmem p value').1 hrow).1
      refine ⟨(hnode _).1 hnil, ?_⟩
      rw [← hid' _ hrow]
      exact hvalue
    · rintro ⟨hserver, hvalue⟩
      refine ⟨(⟨id, server, sign⟩, value), List.mem_filter.2 ⟨?_, (hnode _).2 hserver⟩, rfl⟩
      exact (hmem _ _).2 ⟨hvalue, (Place.prefix_bytes_iff _ _).2 rfl⟩

/-- A reader of a listed counter is told its slots. -/
theorem index_slotsOf (h : t.trees.Shows c.ledger) {id : CounterId}
    (hid : c.ids group name = some id) :
    ∃ slots, Index.slotsOf t group name = .ok slots ∧ c.Lists group name slots := by
  obtain ⟨slots, hslots, hlists⟩ := index_slots h hid
  refine ⟨slots, ?_, hlists⟩
  rw [Index.slotsOf, index_anyId? h, hid]
  exact hslots

theorem index_slotsOf_of_not_listed (h : t.trees.Shows c.ledger)
    (hid : c.ids group name = none) :
    Index.slotsOf t group name = .error (.counter (.notFound group name)) := by
  rw [Index.slotsOf, index_anyId? h, hid]
  rfl

/-- The slots of a counter that is listed are summed up. -/
theorem index_total (h : t.trees.Shows c.ledger) {id : CounterId}
    (hid : c.ids group name = some id) :
    ∃ slots, c.Lists group name slots ∧
      Index.total t id = .ok (slots.map SlotValue.contribution).sum := by
  obtain ⟨slots, hslots, hlists⟩ := index_slots h hid
  exact ⟨slots, hlists, by rw [Index.total, hslots]; rfl⟩

theorem index_totalOf_of_liveId? {id : CounterId}
    (h : Index.liveId? t group name = .ok (some id)) :
    Index.totalOf t group name = Index.total t id := by
  rw [Index.totalOf, Index.liveId, h]
  rfl

/-- The total of a live counter is the sum of its slots. -/
theorem index_totalOf (h : t.trees.Shows c.ledger) (hlive : c.Live group name) :
    ∃ slots, c.Lists group name slots ∧
      Index.totalOf t group name = .ok (slots.map SlotValue.contribution).sum := by
  obtain ⟨id, hid, hnot⟩ := hlive
  have hfound : Index.liveId? t group name = .ok (some id) := by
    rw [index_liveId? h, (c.liveId?_eq_some_iff group name).2 ⟨hid, hnot⟩]
  rw [index_totalOf_of_liveId? hfound]
  exact index_total h hid

theorem index_totalOf_of_not_live (h : t.trees.Shows c.ledger) (hdead : ¬ c.Live group name) :
    Index.totalOf t group name = .error (.counter (.notFound group name)) := by
  rw [Index.totalOf, Index.liveId, index_liveId? h, (c.liveId?_eq_none_iff group name).2 hdead]
  rfl

/-- A counter is listed as long as it has a slot. -/
theorem Sound.listed_iff (hs : c.Sound) :
    (∃ id, c.ids group name = some id) ↔
      ∃ server sign, ∃ value,
        (c.slot ⟨group, name, server, sign⟩).map Cell.value = some value := by
  constructor
  · rintro ⟨id, hid⟩
    obtain ⟨p, cell, rfl, hcell⟩ := hs.slot_of_id hid
    refine ⟨p.serverId, p.sign, cell.value, ?_⟩
    rw [slot_of_ids (k := ⟨group, name, p.serverId, p.sign⟩) hid, hcell]
    rfl
  · rintro ⟨server, sign, value, hvalue⟩
    obtain ⟨cell, hcell, _⟩ := Option.map_eq_some_iff.1 hvalue
    obtain ⟨id, hid, _⟩ := slot_eq_some_iff.1 hcell
    exact ⟨id, hid⟩

/-- Stores with the same values have the same counters. -/
theorem SameValues.listed_iff (h : c.SameValues c') (hs : c.Sound) (hs' : c'.Sound) :
    (∃ id, c.ids group name = some id) ↔ ∃ id, c'.ids group name = some id := by
  rw [hs.listed_iff, hs'.listed_iff]
  simp only [h _]

section SameValues

variable (h : t.trees.Shows c.ledger) (h' : t'.trees.Shows c'.ledger) (hsame : c.SameValues c')
variable (hs : c.Sound) (hs' : c'.Sound)

include h h' hsame hs hs'

/-- Readers of stores with the same values are told the same slots of every counter. -/
theorem SameValues.index_slotsOf (group name : String) :
    Index.slotsOf t group name = Index.slotsOf t' group name := by
  cases hid : c.ids group name with
  | some id =>
      obtain ⟨id', hid'⟩ := (hsame.listed_iff hs hs').1 ⟨id, hid⟩
      obtain ⟨slots, hslots, hlists⟩ := Catalog.index_slotsOf h hid
      obtain ⟨slots', hslots', hlists'⟩ := Catalog.index_slotsOf h' hid'
      rw [hslots, hslots', (hlists.congr hsame).unique hlists']
  | none =>
      have hid' : c'.ids group name = none := by
        rw [Option.eq_none_iff_forall_ne_some]
        intro id' hid'
        obtain ⟨id, hid''⟩ := (hsame.listed_iff hs hs').2 ⟨id', hid'⟩
        rw [hid] at hid''
        cases hid''
      rw [index_slotsOf_of_not_listed h hid, index_slotsOf_of_not_listed h' hid']

/-- Readers of stores with the same values are told the same total of every counter. -/
theorem SameValues.index_totalOf (group name : String) :
    Index.totalOf t group name = Index.totalOf t' group name := by
  by_cases hlive : c.Live group name
  · obtain ⟨slots, hlists, htotal⟩ := Catalog.index_totalOf h hlive
    obtain ⟨slots', hlists', htotal'⟩ :=
      Catalog.index_totalOf h' ((hsame.live_iff hs hs').1 hlive)
    rw [htotal, htotal', (hlists.congr hsame).unique hlists']
  · rw [index_totalOf_of_not_live h hlive,
      index_totalOf_of_not_live h' (mt (hsame.live_iff hs hs').2 hlive)]

end SameValues

/-- A value that one reader is told is held by every store whose reader is told the same. -/
theorem slot_of_slotsOf_eq (h : t.trees.Shows c.ledger) (h' : t'.trees.Shows c'.ledger)
    {k : SlotName} (heq : Index.slotsOf t k.group k.name = Index.slotsOf t' k.group k.name)
    (hnode : k.serverId ≠ .nil) {value : Int64}
    (hvalue : (c.slot k).map Cell.value = some value) :
    (c'.slot k).map Cell.value = some value := by
  obtain ⟨cell, hcell, _⟩ := Option.map_eq_some_iff.1 hvalue
  obtain ⟨id, hid, _⟩ := slot_eq_some_iff.1 hcell
  obtain ⟨slots, hslots, hlists⟩ := index_slotsOf h hid
  cases hid' : c'.ids k.group k.name with
  | none =>
      rw [hslots, index_slotsOf_of_not_listed h' hid'] at heq
      cases heq
  | some id' =>
      obtain ⟨slots', hslots', hlists'⟩ := index_slotsOf h' hid'
      rw [hslots, hslots', Except.ok.injEq] at heq
      have hmem := (hlists.mem_iff ⟨k.serverId, k.sign, value⟩).2 ⟨hnode, hvalue⟩
      rw [heq, hlists'.mem_iff] at hmem
      exact hmem.2

/-- Readers of two undeleted stores are told the same slots and the same total of every counter
exactly when the stores hold the same values. -/
theorem sameValues_iff_readings (h : t.trees.Shows c.ledger) (h' : t'.trees.Shows c'.ledger)
    (hs : c.Sound) (hs' : c'.Sound) (hu : c.Undeleted) (hu' : c'.Undeleted) :
    c.SameValues c' ↔ ∀ group name,
      Index.slotsOf t group name = Index.slotsOf t' group name ∧
      Index.totalOf t group name = Index.totalOf t' group name := by
  constructor
  · exact fun hsame group name =>
      ⟨hsame.index_slotsOf h h' hs hs' group name, hsame.index_totalOf h h' hs hs' group name⟩
  · intro hreadings k
    obtain ⟨heq, _⟩ := hreadings k.group k.name
    by_cases hnode : k.serverId = .nil
    · have hnone : ∀ cell, c.slot k ≠ some cell := fun _ hk => hu.slot_nil hs hk hnode
      have hnone' : ∀ cell, c'.slot k ≠ some cell := fun _ hk => hu'.slot_nil hs' hk hnode
      rw [Option.eq_none_iff_forall_ne_some.2 hnone, Option.eq_none_iff_forall_ne_some.2 hnone']
    · apply Option.ext
      intro value
      exact ⟨slot_of_slotsOf_eq h h' heq hnode, slot_of_slotsOf_eq h' h heq.symm hnode⟩

end Catalog

end CounterMesh
