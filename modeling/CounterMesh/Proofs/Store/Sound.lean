import CounterMesh.Proofs.Store.Catalog

/-!
# Sound catalogs

The writes of a store keep its catalog sound. The sequences are words, so a
write needs room for one more number: the next etag is then greater than all
etags in use, and the next counter id is not in use.
-/

namespace CounterMesh.Catalog

/-- Every counter has an id of its own and a slot, every slot has an etag of its own and a
counter, and a tombstone is the only slot of the reserved id and the newest of its counter. -/
structure Sound (c : Catalog) : Prop where
  id_unique : ∀ {g n g' n' id}, c.ids g n = some id → c.ids g' n' = some id → g = g' ∧ n = n'
  id_le : ∀ {g n id}, c.ids g n = some id → id ≤ c.lastCounterId
  slot_of_id : ∀ {g n id}, c.ids g n = some id → ∃ p cell, p.counterId = id ∧ c.cells p = some cell
  id_of_slot : ∀ {p cell}, c.cells p = some cell → ∃ g n, c.ids g n = some p.counterId
  etag_unique : ∀ {p q cell cell'}, c.cells p = some cell → c.cells q = some cell' →
    cell.etag = cell'.etag → p = q
  etag_pos : ∀ {p cell}, c.cells p = some cell → 0 < cell.etag
  etag_le : ∀ {p cell}, c.cells p = some cell → cell.etag ≤ c.lastEtag
  reserved : ∀ {p cell}, c.cells p = some cell → p.serverId = .nil → p = .tombstone p.counterId
  tombstone_newest : ∀ {p cell cell'}, c.cells p = some cell →
    c.cells (.tombstone p.counterId) = some cell' → p ≠ .tombstone p.counterId →
    cell.etag < cell'.etag

/-- The metadata of a store: its format, the id of its node and both sequences. -/
structure Records (c : Catalog) (serverId : ServerId) : Prop where
  format : c.metadata Layout.formatKey = some Layout.formatHeader
  server : c.metadata Layout.serverIdKey = some serverId.bytes
  lastEtag : (c.metadata Layout.lastEtagKey).getD (Word.big 0) = Word.big c.lastEtag
  lastCounterId :
    (c.metadata Layout.lastCounterIdKey).getD (Word.big 0) = Word.big c.lastCounterId

/-- Both sequences have this many numbers left. -/
def HasRoom (c : Catalog) (count : Nat) : Prop :=
  c.lastEtag.toNat + count < UInt64.size ∧ c.lastCounterId.toNat + count < UInt64.size

theorem HasRoom.mono {c : Catalog} {count count' : Nat} (h : c.HasRoom count)
    (hle : count' ≤ count) : c.HasRoom count' :=
  ⟨by have := h.1; omega, by have := h.2; omega⟩

/-- The next number of a sequence with room is greater. -/
theorem lt_add_one_of_room {n : UInt64} {count : Nat} (h : n.toNat + count < UInt64.size)
    (hpos : 0 < count) : n < n + 1 := by
  rw [UInt64.lt_iff_toNat_lt, UInt64.toNat_add]
  simp only [UInt64.size] at h
  have hone : (1 : UInt64).toNat = 1 := rfl
  omega

theorem toNat_add_one_of_room {n : UInt64} {count : Nat} (h : n.toNat + count < UInt64.size)
    (hpos : 0 < count) : (n + 1).toNat = n.toNat + 1 := by
  rw [UInt64.toNat_add]
  simp only [UInt64.size] at h
  have hone : (1 : UInt64).toNat = 1 := rfl
  omega

section Put

variable {c : Catalog} {group name : String} {serverId : ServerId} {sign : Sign} {value : Int64}

theorem lastCounterId_put_cases (c : Catalog) (group name : String) (serverId : ServerId)
    (sign : Sign) (value : Int64) :
    (c.ids group name = some (c.idFor group name) ∧
      (c.put group name serverId sign value).lastCounterId = c.lastCounterId) ∨
    (c.ids group name = none ∧ c.idFor group name = c.lastCounterId + 1 ∧
      (c.put group name serverId sign value).lastCounterId = c.lastCounterId + 1) := by
  cases hid : c.ids group name with
  | none =>
      exact .inr ⟨rfl, idFor_of_none hid, by simp [put, reserve, hid, takeEtag, takeCounterId]⟩
  | some id =>
      refine .inl ⟨congrArg some (idFor_of_some hid).symm, ?_⟩
      simp [put, reserve, hid, takeEtag]

theorem ids_put_iff {g n : String} {id : CounterId} :
    (c.put group name serverId sign value).ids g n = some id ↔
      g = group ∧ n = name ∧ id = c.idFor group name ∨
        ¬ (g = group ∧ n = name) ∧ c.ids g n = some id := by
  by_cases hg : g = group ∧ n = name
  · obtain ⟨rfl, rfl⟩ := hg
    simp [eq_comm]
  · rw [ids_put_of_ne _ _ _ _ _ _ hg]
    tauto

/-- A listed counter keeps its id. -/
theorem ids_put_of_some {g n : String} {id : CounterId} (hid : c.ids g n = some id) :
    (c.put group name serverId sign value).ids g n = some id := by
  rw [ids_put_iff]
  by_cases hg : g = group ∧ n = name
  · obtain ⟨rfl, rfl⟩ := hg
    exact .inl ⟨rfl, rfl, (idFor_of_some hid).symm⟩
  · exact .inr ⟨hg, hid⟩

theorem lastCounterId_le_put (hroom : c.HasRoom 1) :
    c.lastCounterId ≤ (c.put group name serverId sign value).lastCounterId := by
  rcases lastCounterId_put_cases c group name serverId sign value with ⟨_, hlast⟩ | ⟨_, _, hlast⟩
  · rw [hlast]
    exact UInt64.le_refl _
  · rw [hlast]
    exact UInt64.le_of_lt (lt_add_one_of_room hroom.2 one_pos)

/-- A write uses up at most one number of each sequence. -/
theorem HasRoom.put {count : Nat} (h : c.HasRoom (count + 1)) :
    (c.put group name serverId sign value).HasRoom count := by
  obtain ⟨hetag, hid⟩ := h
  refine ⟨?_, ?_⟩
  · rw [lastEtag_put, toNat_add_one_of_room hetag (by omega)]
    omega
  · rcases lastCounterId_put_cases c group name serverId sign value with ⟨_, hlast⟩ | ⟨_, _, hlast⟩
    · rw [hlast]
      omega
    · rw [hlast, toNat_add_one_of_room hid (by omega)]
      omega

namespace Sound

theorem etagAt_unique (h : c.Sound) {p q : Place} {etag : Etag} (hp : c.etagAt p = some etag)
    (hq : c.etagAt q = some etag) : p = q := by
  obtain ⟨value, hp⟩ := (c.etagAt_eq_some_iff).1 hp
  obtain ⟨value', hq⟩ := (c.etagAt_eq_some_iff).1 hq
  exact h.etag_unique hp hq rfl

theorem etagAt_le (h : c.Sound) {p : Place} {etag : Etag} (hp : c.etagAt p = some etag) :
    etag ≤ c.lastEtag := by
  obtain ⟨value, hp⟩ := (c.etagAt_eq_some_iff).1 hp
  exact h.etag_le hp

theorem etagAt_ne_next (h : c.Sound) (hroom : c.HasRoom 1) {p : Place} :
    c.etagAt p ≠ some (c.lastEtag + 1) := by
  intro hp
  exact absurd (lt_add_one_of_room hroom.1 one_pos) (UInt64.not_lt.2 (h.etagAt_le hp))

/-- The id that a write uses belongs to no other counter. -/
theorem idFor_unique (h : c.Sound) (hroom : c.HasRoom 1) {g n : String}
    (hid : c.ids g n = some (c.idFor group name)) : g = group ∧ n = name := by
  cases hfound : c.ids group name with
  | none =>
      rw [idFor_of_none hfound] at hid
      have hle := h.id_le hid
      have hlt := lt_add_one_of_room hroom.2 one_pos
      exact absurd hlt (UInt64.not_lt.2 hle)
  | some id =>
      rw [idFor_of_some hfound] at hid
      exact h.id_unique hid hfound

theorem idFor_le_put (h : c.Sound) :
    c.idFor group name ≤ (c.put group name serverId sign value).lastCounterId := by
  rcases lastCounterId_put_cases c group name serverId sign value with
    ⟨hfound, hlast⟩ | ⟨_, hidFor, hlast⟩
  · rw [hlast]
    exact h.id_le hfound
  · rw [hlast, hidFor]
    exact UInt64.le_refl _

/-- Writing a slot keeps a catalog sound; only a tombstone is written under the reserved id. -/
theorem put (h : c.Sound) (hroom : c.HasRoom 1)
    (hreserved : serverId = .nil → sign = .positive) :
    (c.put group name serverId sign value).Sound := by
  have hnext : c.lastEtag < c.lastEtag + 1 := lt_add_one_of_room hroom.1 one_pos
  have hfresh : ∀ {p cell}, c.cells p = some cell → cell.etag < c.lastEtag + 1 :=
    fun hcell => UInt64.lt_of_le_of_lt (h.etag_le hcell) hnext
  constructor
  case id_unique =>
    intro g n g' n' id hid hid'
    rcases ids_put_iff.1 hid with ⟨rfl, rfl, rfl⟩ | ⟨hne, hold⟩
    · rcases ids_put_iff.1 hid' with ⟨rfl, rfl, _⟩ | ⟨hne', hold'⟩
      · exact ⟨rfl, rfl⟩
      · exact absurd (h.idFor_unique hroom hold') hne'
    · rcases ids_put_iff.1 hid' with ⟨rfl, rfl, rfl⟩ | ⟨_, hold'⟩
      · exact absurd (h.idFor_unique hroom hold) hne
      · exact h.id_unique hold hold'
  case id_le =>
    intro g n id hid
    rcases ids_put_iff.1 hid with ⟨rfl, rfl, rfl⟩ | ⟨_, hold⟩
    · exact h.idFor_le_put
    · exact UInt64.le_trans (h.id_le hold) (lastCounterId_le_put hroom)
  case slot_of_id =>
    intro g n id hid
    rcases ids_put_iff.1 hid with ⟨rfl, rfl, rfl⟩ | ⟨hother, hold⟩
    · exact ⟨c.placeFor g n serverId sign, _, rfl, cells_put_self ..⟩
    · have hne : id ≠ c.idFor group name := by
        rintro rfl
        exact hother (h.idFor_unique hroom hold)
      obtain ⟨p, cell, rfl, hcell⟩ := h.slot_of_id hold
      refine ⟨p, cell, rfl, ?_⟩
      rw [cells_put_of_ne, hcell]
      · rintro rfl
        exact hne rfl
      · intro hp
        exact hne (congrArg Place.counterId hp)
  case id_of_slot =>
    intro p cell hcell
    rcases cells_put_cases _ _ _ _ _ _ hcell with ⟨rfl, _⟩ | ⟨_, _, hold⟩
    · exact ⟨group, name, ids_put_self ..⟩
    · obtain ⟨g, n, hid⟩ := h.id_of_slot hold
      exact ⟨g, n, ids_put_of_some hid⟩
  case etag_unique =>
    intro p q cell cell' hcell hcell' hetag
    rcases cells_put_cases _ _ _ _ _ _ hcell with ⟨rfl, rfl⟩ | ⟨_, _, hold⟩
    · rcases cells_put_cases _ _ _ _ _ _ hcell' with ⟨rfl, _⟩ | ⟨_, _, hold'⟩
      · rfl
      · exact absurd (hetag ▸ hfresh hold') (UInt64.lt_irrefl _)
    · rcases cells_put_cases _ _ _ _ _ _ hcell' with ⟨rfl, rfl⟩ | ⟨_, _, hold'⟩
      · exact absurd (hetag ▸ hfresh hold) (UInt64.lt_irrefl _)
      · exact h.etag_unique hold hold' hetag
  case etag_pos =>
    intro p cell hcell
    rcases cells_put_cases _ _ _ _ _ _ hcell with ⟨_, rfl⟩ | ⟨_, _, hold⟩
    · exact UInt64.lt_of_le_of_lt UInt64.zero_le hnext
    · exact h.etag_pos hold
  case etag_le =>
    intro p cell hcell
    rw [lastEtag_put]
    rcases cells_put_cases _ _ _ _ _ _ hcell with ⟨_, rfl⟩ | ⟨_, _, hold⟩
    · exact UInt64.le_refl _
    · exact UInt64.le_of_lt (hfresh hold)
  case reserved =>
    intro p cell hcell hnil
    rcases cells_put_cases _ _ _ _ _ _ hcell with ⟨rfl, _⟩ | ⟨_, _, hold⟩
    · have hserver : serverId = .nil := hnil
      rw [placeFor, hserver, hreserved hserver]
      rfl
    · exact h.reserved hold hnil
  case tombstone_newest =>
    intro p cell cell' hcell hcell' hne
    rcases cells_put_cases _ _ _ _ _ _ hcell' with ⟨ht, rfl⟩ | ⟨_, ht, hold'⟩
    · rcases cells_put_cases _ _ _ _ _ _ hcell with ⟨hp, _⟩ | ⟨_, _, hold⟩
      · exact absurd (hp.trans ht.symm) hne
      · exact hfresh hold
    · rcases cells_put_cases _ _ _ _ _ _ hcell with ⟨rfl, _⟩ | ⟨_, _, hold⟩
      · exact absurd rfl ht
      · exact h.tombstone_newest hold hold' hne

end Sound

end Put

section Forget

variable {c : Catalog} {counterId : CounterId}

theorem ids_forget_eq_some_iff {g n : String} {id : CounterId} :
    (c.forget counterId).ids g n = some id ↔ c.ids g n = some id ∧ id ≠ counterId := by
  simp only [forget]
  split
  · next h =>
    rw [h, Option.some.injEq]
    constructor
    · nofun
    · rintro ⟨rfl, hne⟩
      exact absurd rfl hne
  · next h =>
    refine ⟨fun hid => ⟨hid, ?_⟩, And.left⟩
    rintro rfl
    exact h hid

theorem cells_forget_eq_some_iff {p : Place} {cell : Cell} :
    (c.forget counterId).cells p = some cell ↔ c.cells p = some cell ∧ p.counterId ≠ counterId := by
  simp only [forget]
  split
  · next h => simp [h]
  · next h => simp [h]

/-- Forgetting a counter keeps a catalog sound: its name and its slots go together. -/
theorem Sound.forget (h : c.Sound) (counterId : CounterId) : (c.forget counterId).Sound := by
  constructor
  case id_unique =>
    intro g n g' n' id hid hid'
    exact h.id_unique (ids_forget_eq_some_iff.1 hid).1 (ids_forget_eq_some_iff.1 hid').1
  case id_le =>
    intro g n id hid
    exact h.id_le (ids_forget_eq_some_iff.1 hid).1
  case slot_of_id =>
    intro g n id hid
    obtain ⟨hid, hne⟩ := ids_forget_eq_some_iff.1 hid
    obtain ⟨p, cell, rfl, hcell⟩ := h.slot_of_id hid
    exact ⟨p, cell, rfl, cells_forget_eq_some_iff.2 ⟨hcell, hne⟩⟩
  case id_of_slot =>
    intro p cell hcell
    obtain ⟨hcell, hne⟩ := cells_forget_eq_some_iff.1 hcell
    obtain ⟨g, n, hid⟩ := h.id_of_slot hcell
    exact ⟨g, n, ids_forget_eq_some_iff.2 ⟨hid, hne⟩⟩
  case etag_unique =>
    intro p q cell cell' hcell hcell' hetag
    exact h.etag_unique (cells_forget_eq_some_iff.1 hcell).1
      (cells_forget_eq_some_iff.1 hcell').1 hetag
  case etag_pos =>
    intro p cell hcell
    exact h.etag_pos (cells_forget_eq_some_iff.1 hcell).1
  case etag_le =>
    intro p cell hcell
    exact h.etag_le (cells_forget_eq_some_iff.1 hcell).1
  case reserved =>
    intro p cell hcell hnil
    exact h.reserved (cells_forget_eq_some_iff.1 hcell).1 hnil
  case tombstone_newest =>
    intro p cell cell' hcell hcell' hne
    exact h.tombstone_newest (cells_forget_eq_some_iff.1 hcell).1
      (cells_forget_eq_some_iff.1 hcell').1 hne

end Forget

theorem Sound.setCursor {c : Catalog} (h : c.Sound) (serverId : ServerId) (etag : Etag) :
    (c.setCursor serverId etag).Sound :=
  ⟨h.id_unique, h.id_le, h.slot_of_id, h.id_of_slot, h.etag_unique, h.etag_pos, h.etag_le,
    h.reserved, h.tombstone_newest⟩

theorem Sound.setMetadata {c : Catalog} (h : c.Sound) (key value : Bytes) :
    (c.setMetadata key value).Sound :=
  ⟨h.id_unique, h.id_le, h.slot_of_id, h.id_of_slot, h.etag_unique, h.etag_pos, h.etag_le,
    h.reserved, h.tombstone_newest⟩

namespace Records

variable {c : Catalog} {serverId : ServerId}

/-- The metadata tell which node a store belongs to. -/
theorem unique {serverId' : ServerId} (h : c.Records serverId) (h' : c.Records serverId') :
    serverId = serverId' :=
  ServerId.ext (Option.some.inj (h.server.symm.trans h'.server))

theorem takeCounterId (h : c.Records serverId) : c.takeCounterId.Records serverId where
  format := by
    rw [metadata_takeCounterId, Function.update_of_ne (by decide)]
    exact h.format
  server := by
    rw [metadata_takeCounterId, Function.update_of_ne (by decide)]
    exact h.server
  lastEtag := by
    rw [metadata_takeCounterId, Function.update_of_ne (by decide)]
    exact h.lastEtag
  lastCounterId := by
    rw [metadata_takeCounterId, Function.update_self]
    rfl

theorem takeEtag (h : c.Records serverId) : c.takeEtag.Records serverId where
  format := by
    rw [metadata_takeEtag, Function.update_of_ne (by decide)]
    exact h.format
  server := by
    rw [metadata_takeEtag, Function.update_of_ne (by decide)]
    exact h.server
  lastEtag := by
    rw [metadata_takeEtag, Function.update_self]
    rfl
  lastCounterId := by
    rw [metadata_takeEtag, Function.update_of_ne (by decide)]
    exact h.lastCounterId

theorem put (h : c.Records serverId) (group name : String) (server : ServerId) (sign : Sign)
    (value : Int64) : (c.put group name server sign value).Records serverId := by
  have hreserve : (c.reserve group name).Records serverId := by
    rw [reserve]
    split
    · exact h
    · exact h.takeCounterId
  exact ⟨hreserve.takeEtag.format, hreserve.takeEtag.server, hreserve.takeEtag.lastEtag,
    hreserve.takeEtag.lastCounterId⟩

theorem forget (h : c.Records serverId) (counterId : CounterId) :
    (c.forget counterId).Records serverId :=
  ⟨h.format, h.server, h.lastEtag, h.lastCounterId⟩

theorem setCursor (h : c.Records serverId) (peer : ServerId) (etag : Etag) :
    (c.setCursor peer etag).Records serverId :=
  ⟨h.format, h.server, h.lastEtag, h.lastCounterId⟩

/-- The replication document stands under a key of its own. -/
theorem setReplication (h : c.Records serverId) (document : Bytes) :
    (c.setMetadata Layout.replicationKey document).Records serverId where
  format := by
    rw [metadata_setMetadata, Function.update_of_ne (by decide)]
    exact h.format
  server := by
    rw [metadata_setMetadata, Function.update_of_ne (by decide)]
    exact h.server
  lastEtag := by
    rw [metadata_setMetadata, Function.update_of_ne (by decide)]
    exact h.lastEtag
  lastCounterId := by
    rw [metadata_setMetadata, Function.update_of_ne (by decide)]
    exact h.lastCounterId

end Records

end CounterMesh.Catalog
