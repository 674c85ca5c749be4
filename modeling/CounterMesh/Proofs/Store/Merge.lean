import CounterMesh.Proofs.Counter.Keys
import CounterMesh.Proofs.Store.Sound
import CounterMesh.Proofs.Store.Steps

/-!
# Merges on a catalog

On trees that present the ledger of a sound catalog, look-ups by name find
exactly the listed counter, whatever other names start in the same way, and a
merge is the write of one slot: nine trees change together as `Catalog.put`
says.
-/

namespace CounterMesh

namespace GroupEntry

theorem idFor?_bytes_iff (name name' : Bytes) (counterId counterId' : CounterId) :
    idFor? name (bytes name' counterId') = some counterId ↔
      name' = name ∧ counterId' = counterId := by
  rw [idFor?_iff_eq_append]
  constructor
  · intro h
    obtain ⟨rfl, hid⟩ := List.append_inj' h (by simp)
    exact ⟨rfl, Word.big_injective hid⟩
  · rintro ⟨rfl, rfl⟩
    rfl

end GroupEntry

namespace Index

variable {t : Transaction} {L : Ledger}

/-- Among the entries of a group, the first that is read as the name's own is the only one. -/
theorem findSome?_idFor? (rows : List (String × CounterId)) (name : String)
    (hunique : ∀ id id', (name, id) ∈ rows → (name, id') ∈ rows → id = id') :
    ∀ id, (rows.map Code.groupEntry.bytes).findSome? (GroupEntry.idFor? (Bytes.ofText name)) =
      some id ↔ (name, id) ∈ rows := by
  have hentry : ∀ (row : String × CounterId) (id : CounterId),
      GroupEntry.idFor? (Bytes.ofText name) (Code.groupEntry.bytes row) = some id ↔
        row = (name, id) := by
    rintro ⟨name', id'⟩ id
    have hbytes : Code.groupEntry.bytes (name', id') =
        GroupEntry.bytes (Bytes.ofText name') id' := rfl
    rw [hbytes, GroupEntry.idFor?_bytes_iff, Prod.mk.injEq, Bytes.ofText_injective.eq_iff]
  intro id
  constructor
  · intro hfound
    obtain ⟨entry, hmem, hid⟩ := List.exists_of_findSome?_eq_some hfound
    obtain ⟨row, hrow, rfl⟩ := List.mem_map.1 hmem
    exact (hentry row id).1 hid ▸ hrow
  · intro hmem
    have hsome : ((rows.map Code.groupEntry.bytes).findSome?
        (GroupEntry.idFor? (Bytes.ofText name))).isSome := by
      rw [List.findSome?_isSome_iff]
      exact ⟨_, List.mem_map.2 ⟨_, hmem, rfl⟩, by rw [(hentry (name, id) id).2 rfl]; rfl⟩
    obtain ⟨id', hfound⟩ := Option.isSome_iff_exists.1 hsome
    obtain ⟨entry, hmem', hid⟩ := List.exists_of_findSome?_eq_some hfound
    obtain ⟨row, hrow, rfl⟩ := List.mem_map.1 hmem'
    rw [hfound, hunique id id' hmem ((hentry row id').1 hid ▸ hrow)]

/-- A look-up by name finds the counter that the entries list under this very name. -/
theorem find?_of_values {tree group name : String} {rows : List (String × CounterId)}
    {found : Option CounterId}
    (hvalues : t.valuesStarting tree (Bytes.ofText group) (Bytes.ofText name) =
      .ok (rows.map Code.groupEntry.bytes))
    (hfound : ∀ id, (name, id) ∈ rows ↔ found = some id) :
    find? t tree group name = .ok found := by
  have hunique : ∀ id id', (name, id) ∈ rows → (name, id') ∈ rows → id = id' := by
    intro id id' hid hid'
    exact Option.some.inj (((hfound id).1 hid).symm.trans ((hfound id').1 hid'))
  have hsome : (rows.map Code.groupEntry.bytes).findSome?
      (GroupEntry.idFor? (Bytes.ofText name)) = found := by
    apply Option.ext
    intro id
    rw [findSome?_idFor? rows name hunique, hfound]
  rw [find?, hvalues, ← hsome]
  rfl

end Index

namespace Catalog

variable (c : Catalog) (group name : String)

/-- The id of the counter if it is live. -/
def liveId? : Option CounterId :=
  (c.ids group name).filter fun id => !(c.cells (.tombstone id)).isSome

/-- The id of the counter if it is deleted. -/
def deletedId? : Option CounterId :=
  (c.ids group name).filter fun id => (c.cells (.tombstone id)).isSome

theorem liveId?_eq_some_iff {id : CounterId} :
    c.liveId? group name = some id ↔ c.ids group name = some id ∧ ¬ c.Deleted id := by
  simp [liveId?, Option.filter_eq_some_iff, Deleted]

theorem liveId?_eq_none_iff : c.liveId? group name = none ↔ ¬ c.Live group name := by
  rw [Option.eq_none_iff_forall_ne_some, Live, not_exists]
  exact forall_congr' fun id => not_congr (c.liveId?_eq_some_iff group name)

theorem deletedId?_eq_some_iff {id : CounterId} :
    c.deletedId? group name = some id ↔ c.ids group name = some id ∧ c.Deleted id := by
  simp [deletedId?, Option.filter_eq_some_iff, Deleted]

variable {c group name}

/-- A look-up of a live counter finds its id. -/
theorem index_liveId? {t : Transaction} (h : t.trees.Shows c.ledger) :
    Index.liveId? t group name = .ok (c.liveId? group name) := by
  obtain ⟨rows, hvalues, hmem⟩ :=
    Transaction.valuesStarting_of_shows h .live group (Bytes.ofText name)
  refine Index.find?_of_values hvalues fun id => ?_
  rw [hmem, liveId?_eq_some_iff]
  exact and_iff_left (List.prefix_append _ _)

/-- A look-up of a deleted counter finds its id. -/
theorem index_deletedId? {t : Transaction} (h : t.trees.Shows c.ledger) :
    Index.deletedId? t group name = .ok (c.deletedId? group name) := by
  obtain ⟨rows, hvalues, hmem⟩ :=
    Transaction.valuesStarting_of_shows h .deleted group (Bytes.ofText name)
  refine Index.find?_of_values hvalues fun id => ?_
  rw [hmem, deletedId?_eq_some_iff]
  exact and_iff_left (List.prefix_append _ _)

/-- The id of a counter, live or deleted, is found by its name. -/
theorem index_anyId? {t : Transaction} (h : t.trees.Shows c.ledger) (group name : String) :
    Index.anyId? t group name = .ok (c.ids group name) := by
  rw [Index.anyId?, index_liveId? h, index_deletedId? h]
  cases hlive : c.liveId? group name with
  | some id =>
      rw [((c.liveId?_eq_some_iff group name).1 hlive).1]
      rfl
  | none =>
      refine congrArg Except.ok (Option.ext fun id => ?_)
      rw [deletedId?_eq_some_iff]
      refine and_iff_left_of_imp fun hid => ?_
      by_contra hnot
      rw [(c.liveId?_eq_some_iff group name).2 ⟨hid, hnot⟩] at hlive
      cases hlive

/-- The reads of slots and sequences of a look-up. -/
theorem index_slotValue? {t : Transaction} (h : t.trees.Shows c.ledger) (p : Place) :
    Index.slotValue? t p.bytes = .ok (c.valueAt p) := by
  obtain ⟨found, hvalue, hfound⟩ := Write.slotValue?_of_shows h p
  rw [hvalue]
  congr 1
  apply Option.ext
  intro value
  rw [hfound]
  rfl

end Catalog

namespace Pairs

theorem update_eq_some_iff {κ α : Type} [DecidableEq κ] {f : κ → Option α} {x : κ} {y : α}
    (x' : κ) (y' : α) : Function.update f x (some y) x' = some y' ↔
      Pairs.assign (fun x y => f x = some y) x y x' y' := by
  by_cases hx : x' = x
  · subst hx
    simp [Pairs.assign, eq_comm]
  · simp [Pairs.assign, hx]

end Pairs

namespace Catalog

variable {c : Catalog} {group name : String} {serverId : ServerId} {sign : Sign} {value : Int64}

theorem ledger_takeCounterId (c : Catalog) : c.takeCounterId.ledger = c.ledger.takeCounterId := by
  refine Ledger.ext_iff_pairs ?_ ?_ rfl rfl
  · intro column x y
    cases column with
    | metadata => exact Pairs.update_eq_some_iff x y
    | _ => rfl
  · intro column x y
    rfl

theorem ledger_setMetadata (c : Catalog) (key value : Bytes) :
    (c.setMetadata key value).ledger =
      c.ledger.setPlain .metadata ((c.ledger.plain .metadata).assign key value) := by
  refine Ledger.ext_iff_pairs ?_ ?_ rfl rfl
  · intro column x y
    cases column with
    | metadata => exact Pairs.update_eq_some_iff x y
    | _ => rfl
  · intro column x y
    rfl

theorem ledger_setCursor (c : Catalog) (serverId : ServerId) (etag : Etag) :
    (c.setCursor serverId etag).ledger =
      c.ledger.setPlain .cursors ((c.ledger.plain .cursors).assign serverId etag) := by
  refine Ledger.ext_iff_pairs ?_ ?_ rfl rfl
  · intro column x y
    cases column with
    | cursors => exact Pairs.update_eq_some_iff x y
    | _ => rfl
  · intro column x y
    rfl

theorem cells_put_iff {q : Place} {cell : Cell} :
    (c.put group name serverId sign value).cells q = some cell ↔
      q = c.placeFor group name serverId sign ∧ cell = ⟨value, c.lastEtag + 1⟩ ∨
        q ≠ c.placeFor group name serverId sign ∧ q ≠ .tombstone (c.idFor group name) ∧
          c.cells q = some cell := by
  constructor
  · exact cells_put_cases _ _ _ _ _ _
  · rintro (⟨rfl, rfl⟩ | ⟨hq, ht, hcell⟩)
    · exact cells_put_self ..
    · rwa [cells_put_of_ne _ _ _ _ _ _ hq ht]

theorem valueAt_put_iff {q : Place} {v : Int64} :
    (c.put group name serverId sign value).valueAt q = some v ↔
      q = c.placeFor group name serverId sign ∧ v = value ∨
        q ≠ c.placeFor group name serverId sign ∧ q ≠ .tombstone (c.idFor group name) ∧
          c.valueAt q = some v := by
  simp only [valueAt, Option.map_eq_some_iff, cells_put_iff]
  grind

theorem etagAt_put_iff {q : Place} {etag : Etag} :
    (c.put group name serverId sign value).etagAt q = some etag ↔
      q = c.placeFor group name serverId sign ∧ etag = c.lastEtag + 1 ∨
        q ≠ c.placeFor group name serverId sign ∧ q ≠ .tombstone (c.idFor group name) ∧
          c.etagAt q = some etag := by
  simp only [etagAt, Option.map_eq_some_iff, cells_put_iff]
  grind

theorem metadata_put_iff {key found : Bytes} :
    (c.put group name serverId sign value).metadata key = some found ↔
      key = Layout.lastEtagKey ∧ found = Word.big (c.lastEtag + 1) ∨
        key ≠ Layout.lastEtagKey ∧ (c.reserve group name).metadata key = some found := by
  have hput : (c.put group name serverId sign value).metadata =
      (c.reserve group name).takeEtag.metadata := rfl
  rw [hput, metadata_takeEtag, lastEtag_reserve]
  exact Pairs.update_eq_some_iff key found

/-- A tombstone deletes its counter, the slot of a node revives it. -/
theorem deleted_put_iff {id : CounterId} :
    (c.put group name serverId sign value).Deleted id ↔
      (id = c.idFor group name ∧ c.placeFor group name serverId sign = .tombstone id) ∨
        id ≠ c.idFor group name ∧ c.Deleted id := by
  simp only [deleted_iff_etagAt, etagAt_put_iff]
  constructor
  · rintro ⟨etag, ⟨hp, _⟩ | ⟨_, ht, hetag⟩⟩
    · exact .inl ⟨congrArg Place.counterId hp, hp.symm⟩
    · exact .inr ⟨fun hid => ht (congrArg _ hid), etag, hetag⟩
  · rintro (⟨_, hp⟩ | ⟨hne, etag, hetag⟩)
    · exact ⟨_, .inl ⟨hp.symm, rfl⟩⟩
    · refine ⟨etag, .inr ⟨?_, ?_, hetag⟩⟩
      · intro hp
        exact hne (congrArg Place.counterId hp)
      · intro hp
        exact hne (congrArg Place.counterId hp)

theorem ids_eq_idFor {g n : String} {id : CounterId} (h : c.Sound) (hroom : c.HasRoom 1)
    (hid : c.ids g n = some id) :
    id = c.idFor group name ↔ g = group ∧ n = name := by
  constructor
  · rintro rfl
    exact h.idFor_unique hroom hid
  · rintro ⟨rfl, rfl⟩
    exact (idFor_of_some hid).symm

/-- The write of a node's slot changes the columns as it changes the catalog. -/
theorem ledger_put_node (h : c.Sound) (hroom : c.HasRoom 1) (hserver : serverId ≠ .nil) :
    (c.reserve group name).ledger.writeNode group name (c.placeFor group name serverId sign)
      value = (c.put group name serverId sign value).ledger := by
  have hp : c.placeFor group name serverId sign ≠ .tombstone (c.idFor group name) := by
    intro hp
    exact hserver (congrArg Place.serverId hp)
  have hid : (c.placeFor group name serverId sign).counterId = c.idFor group name := rfl
  have hids : ∀ {g n id}, c.ids g n = some id →
      (id = c.idFor group name ↔ g = group ∧ n = name) := ids_eq_idFor h hroom
  refine Ledger.ext_iff_pairs ?_ ?_ ?_ ?_
  · intro column x y
    cases column <;>
      simp [Ledger.writeNode, Ledger.reassignEtag, Ledger.assignEtag, Ledger.takeEtag,
        Ledger.freePlace, Ledger.assignValue, Ledger.removeTombstone, Ledger.removeEtag,
        Ledger.removeDate, Ledger.assignName, Ledger.listLive, hid, Pairs.assign, Pairs.clear,
        valueAt_put_iff, etagAt_put_iff, ids_put_iff, metadata_put_iff]
    case names =>
        obtain ⟨id, n⟩ := x
        grind
    case places =>
        have hunique := @h.etagAt_unique
        have hnext : ∀ q, c.etagAt q ≠ some (c.lastEtag + 1) := fun q => h.etagAt_ne_next hroom
        grind
  · intro column x y
    cases column <;>
      simp [Ledger.writeNode, Ledger.reassignEtag, Ledger.assignEtag, Ledger.takeEtag,
        Ledger.freePlace, Ledger.assignValue, Ledger.removeTombstone, Ledger.removeEtag,
        Ledger.removeDate, Ledger.assignName, Ledger.listLive, hid, Pairs.add, Pairs.discard,
        valueAt_put_iff, deleted_put_iff, ids_put_iff]
    case live =>
        obtain ⟨n, id⟩ := y
        grind
    case deleted =>
        obtain ⟨n, id⟩ := y
        grind
    case dates => grind
  · rfl
  · rfl

/-- The write of a tombstone changes the columns as it changes the catalog. -/
theorem ledger_put_tombstone (h : c.Sound) (hroom : c.HasRoom 1) {ticks : Int64} :
    (c.reserve group name).ledger.writeTombstone group name (c.idFor group name) ticks =
      (c.put group name .nil .positive ticks).ledger := by
  have hp : c.placeFor group name .nil .positive = .tombstone (c.idFor group name) := rfl
  have hids : ∀ {g n id}, c.ids g n = some id →
      (id = c.idFor group name ↔ g = group ∧ n = name) := ids_eq_idFor h hroom
  have htomb : (Place.tombstone (c.idFor group name)).counterId = c.idFor group name := rfl
  refine Ledger.ext_iff_pairs ?_ ?_ ?_ ?_
  · intro column x y
    cases column <;>
      simp [Ledger.writeTombstone, Ledger.reassignEtag, Ledger.assignEtag, Ledger.takeEtag,
        Ledger.freePlace, Ledger.assignValue, Ledger.assignDate, Ledger.removeDate,
        Ledger.assignName, Ledger.listDeleted, hp, Pairs.assign,
        valueAt_put_iff, etagAt_put_iff, ids_put_iff, metadata_put_iff]
    case names =>
        obtain ⟨id, n⟩ := x
        grind
    case places =>
        have hunique := @h.etagAt_unique
        have hnext : ∀ q, c.etagAt q ≠ some (c.lastEtag + 1) := fun q => h.etagAt_ne_next hroom
        grind
  · intro column x y
    cases column <;>
      simp [Ledger.writeTombstone, Ledger.reassignEtag, Ledger.assignEtag, Ledger.takeEtag,
        Ledger.freePlace, Ledger.assignValue, Ledger.assignDate, Ledger.removeDate,
        Ledger.assignName, Ledger.listDeleted, hp, Pairs.add, Pairs.discard,
        valueAt_put_iff, deleted_put_iff, ids_put_iff]
    case live =>
        obtain ⟨n, id⟩ := y
        grind
    case deleted =>
        obtain ⟨n, id⟩ := y
        grind
    case dates => grind
  · rfl
  · rfl

end Catalog

namespace Write

variable {s : Session} {home : Node} {c : Catalog} {group name : String} {sign : Sign}

/-- A live counter is found with its id, a deleted one with its id as not live, and any other one
gets the next id. -/
theorem returns_resolve (h : s.Shows home c.ledger) (group name : String) :
    Returns (resolve group name) s fun found s' => found.1 = c.idFor group name ∧
      (found.2 = true ↔ c.Live group name) ∧ s'.Shows home (c.reserve group name).ledger := by
  refine (returns_query (Catalog.index_liveId? h.trees)).bind ?_
  rintro _ s' ⟨rfl, rfl⟩
  cases hlive : c.liveId? group name with
  | some id =>
      obtain ⟨hid, hnot⟩ := (c.liveId?_eq_some_iff group name).1 hlive
      have hreserve : c.reserve group name = c := by rw [Catalog.reserve, hid]
      refine .pure ⟨(Catalog.idFor_of_some hid).symm, ?_, hreserve.symm ▸ h⟩
      exact iff_of_true rfl ⟨id, hid, hnot⟩
  | none =>
      have hdead : ¬ c.Live group name := (c.liveId?_eq_none_iff group name).1 hlive
      refine (returns_query (Catalog.index_deletedId? h.trees)).bind ?_
      rintro _ s' ⟨rfl, rfl⟩
      cases hdeleted : c.deletedId? group name with
      | some id =>
          obtain ⟨hid, _⟩ := (c.deletedId?_eq_some_iff group name).1 hdeleted
          have hreserve : c.reserve group name = c := by rw [Catalog.reserve, hid]
          refine .pure ⟨(Catalog.idFor_of_some hid).symm, ?_, hreserve.symm ▸ h⟩
          exact iff_of_false Bool.false_ne_true hdead
      | none =>
          have hid : c.ids group name = none := by
            rw [Option.eq_none_iff_forall_ne_some]
            intro id hid
            by_cases hd : c.Deleted id
            · have hsome := (c.deletedId?_eq_some_iff group name).2 ⟨hid, hd⟩
              rw [hdeleted] at hsome
              cases hsome
            · exact hdead ⟨id, hid, hd⟩
          have hreserve : c.reserve group name = c.takeCounterId := by rw [Catalog.reserve, hid]
          rw [← Sequence.next_counterId]
          refine (returns_next h .counterId).bind ?_
          rintro _ s' ⟨rfl, h'⟩
          refine .pure ⟨(Catalog.idFor_of_none hid).symm, iff_of_false Bool.false_ne_true hdead, ?_⟩
          rw [hreserve, Catalog.ledger_takeCounterId]
          exact h'

/-- The slot of a node is put over its value before, whether its counter was live, deleted or
unknown. -/
theorem returns_merge_node (h : s.Shows home c.ledger) (hs : c.Sound) (hroom : c.HasRoom 1)
    (group name : String) {serverId : ServerId} (hserver : serverId ≠ .nil) (sign : Sign)
    {write : SlotWrite} (hwrite : ∀ ticks, write ≠ .tombstone ticks) :
    Returns (merge group name (.node serverId) sign write) s fun existed s' =>
      (existed = true ↔ c.Live group name) ∧
      s'.Shows home (c.put group name serverId sign
        (write.over (c.valueAt (c.placeFor group name serverId sign)))).ledger := by
  refine (returns_resolve h group name).bind ?_
  rintro ⟨id, existed⟩ s₁ ⟨rfl, hexisted, h₁⟩
  have hetag : ∀ etag,
      (c.reserve group name).ledger.plain .etags (.tombstone (c.idFor group name)) etag →
      ∃ value,
        (c.reserve group name).ledger.plain .values (.tombstone (c.idFor group name)) value := by
    intro etag hetag
    simp only [Catalog.plain_ledger_etags, Catalog.etagAt_reserve] at hetag
    simp only [Catalog.plain_ledger_values, Catalog.valueAt_reserve]
    exact c.deleted_iff_valueAt.1 (c.deleted_iff_etagAt.2 ⟨etag, hetag⟩)
  have hkey : SlotKey.bytes ⟨c.idFor group name, .node serverId, sign⟩ =
      (c.placeFor group name serverId sign).bytes := Place.bytes_slotKey ..
  have hp : c.placeFor group name serverId sign ≠ .tombstone (c.idFor group name) := by
    intro hp
    exact hserver (congrArg Place.serverId hp)
  refine (returns_updateGroups_node h₁ group name serverId hetag).bind fun _ s₂ h₂ => ?_
  simp only [hkey]
  refine (returns_writeSlot h₂ _ write hwrite).bind ?_
  rintro _ s₃ ⟨found, hfound, h₃⟩
  have hbefore : found = c.valueAt (c.placeFor group name serverId sign) := by
    apply Option.ext
    intro value
    rw [hfound]
    simp [Ledger.removeTombstone, Ledger.removeEtag, Ledger.freePlace, Ledger.removeDate,
      Ledger.assignName, Ledger.listLive, Pairs.clear, hp]
  refine (returns_reassignEtag h₃ _).bind fun _ s₄ h₄ => returns_signal.bind ?_
  rintro _ _ rfl
  refine .pure ⟨hexisted, ?_⟩
  rw [← hbefore, ← Catalog.ledger_put_node hs hroom hserver]
  exact h₄.withSignal _

/-- The tombstone of a counter is put with its time of deletion. -/
theorem returns_merge_tombstone (h : s.Shows home c.ledger) (hs : c.Sound) (hroom : c.HasRoom 1)
    (group name : String) (ticks : Int64) :
    Returns (merge group name .tombstone .positive (.tombstone ticks)) s fun existed s' =>
      (existed = true ↔ c.Live group name) ∧
      s'.Shows home (c.put group name .nil .positive ticks).ledger := by
  refine (returns_resolve h group name).bind ?_
  rintro ⟨id, existed⟩ s₁ ⟨rfl, hexisted, h₁⟩
  have hkey : SlotKey.bytes ⟨c.idFor group name, .tombstone, .positive⟩ =
      (Place.tombstone (c.idFor group name)).bytes := Place.bytes_slotKey ..
  refine (returns_updateGroups_tombstone h₁ group name _).bind fun _ s₂ h₂ => ?_
  simp only [hkey]
  refine (returns_writeSlot_tombstone h₂ _ ticks).bind fun _ s₃ h₃ => ?_
  refine (returns_reassignEtag h₃ _).bind fun _ s₄ h₄ => returns_signal.bind ?_
  rintro _ _ rfl
  refine .pure ⟨hexisted, ?_⟩
  rw [← Catalog.ledger_put_tombstone hs hroom]
  exact h₄.withSignal _

end Write

end CounterMesh
