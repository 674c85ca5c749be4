import CounterMesh.Proofs.Store.Totals
import CounterMesh.Proofs.Store.Sequences

/-!
# Resets, deletions and revivals

A reset brings a live counter to zero, and a second one finds nothing to do. A
deletion brings it to zero as well, also from the least total, and leaves a
tombstone behind that holds the time of the clock; slots of other nodes stay as
they are. A store of the deleted counter finds it under its old id, takes the
tombstone away and counts from zero again.
-/

namespace CounterMesh

/-- After a deletion the counter is listed among the deleted ones, its slots add up to zero, the
tombstone holds the time that the clock showed, and the slots of other nodes are as they were. -/
structure Session.Deletes (s s' : Session) (group name : String) (id : CounterId) : Prop where
  live : Index.liveId? s'.writer.transaction group name = .ok none
  deleted : Index.deletedId? s'.writer.transaction group name = .ok (some id)
  balanced : ∃ slots, Index.slotsOf s'.writer.transaction group name = .ok slots ∧
    (slots.map SlotValue.contribution).sum = 0
  tombstone : Index.valueOf? s'.writer.transaction group name .tombstone .positive =
    .ok (some (ticksOf s.node.clock.now.1))
  values : ∀ serverId sign, serverId ≠ .nil → serverId ≠ s.node.serverId →
    Index.valueOf? s'.writer.transaction group name (.node serverId) sign =
      Index.valueOf? s.writer.transaction group name (.node serverId) sign
  etags : ∀ serverId sign, serverId ≠ .nil → serverId ≠ s.node.serverId →
    Index.etagOf? s'.writer.transaction group name (.node serverId) sign =
      Index.etagOf? s.writer.transaction group name (.node serverId) sign

/-- After a store the counter is live under this id with this total. No tombstone of it is left,
nor its etag or its date, and the slot that was written has an etag that is greater than all that
were given out before. -/
structure Session.Revives (s s' : Session) (group name : String) (id : CounterId)
    (delta : Int64) : Prop where
  live : Index.liveId? s'.writer.transaction group name = .ok (some id)
  total : Index.totalOf s'.writer.transaction group name = .ok delta
  tombstone : Index.valueOf? s'.writer.transaction group name .tombstone .positive = .ok none
  tombstone_etag : Index.etagOf? s'.writer.transaction group name .tombstone .positive = .ok none
  feed : ∀ etag, s'.writer.transaction.get Layout.etagToKey etag ≠
    .ok (some (SlotKey.tombstone id).bytes)
  dates : ∀ ticks, s'.writer.transaction.valuesStarting Layout.tombstonesByDate
    (Word.ordered ticks) (Word.big id) = .ok []
  fresh : ∃ etag, Index.etagOf? s'.writer.transaction group name (.node s.node.serverId)
      (Sign.ofDelta delta) = .ok (some etag) ∧ s.writer.lastEtag < etag ∧
    ∀ key slot, s.writer.transaction.get Layout.etagToKey key = .ok (some slot) →
      ∃ earlier, Word.big earlier = key ∧ earlier < etag

namespace Catalog

variable {c c' : Catalog} {t t' : Transaction} {group name : String} {id : CounterId}

theorem index_liveId?_iff (h : t.trees.Shows c.ledger) :
    Index.liveId? t group name = .ok (some id) ↔ c.ids group name = some id ∧ ¬ c.Deleted id := by
  rw [index_liveId? h, Except.ok.injEq, liveId?_eq_some_iff]

/-- The list by date names a counter exactly while it has a tombstone. -/
theorem valuesStarting_dates_of_not_deleted (h : t.trees.Shows c.ledger) (hnot : ¬ c.Deleted id)
    (ticks : Int64) :
    t.valuesStarting Layout.tombstonesByDate (Word.ordered ticks) (Word.big id) = .ok [] := by
  obtain ⟨rows, hvalues, hmem⟩ := Transaction.valuesStarting_of_shows h .dates ticks (Word.big id)
  have hempty : rows = [] := by
    rw [List.eq_nil_iff_forall_not_mem]
    intro p hp
    obtain ⟨⟨htomb, hvalue⟩, hprefix⟩ := (hmem p).1 hp
    have hid : p.counterId = id := (Place.prefix_bytes_iff _ _).1 hprefix
    rw [htomb, hid] at hvalue
    exact hnot (c.deleted_iff_valueAt.2 ⟨ticks, hvalue⟩)
  rw [hempty] at hvalues
  exact hvalues

/-- The write of a node's slot of a deleted counter revives it under its id: the slot counts from
what it held, and no tombstone is left. -/
theorem revive (hs : c.Sound) (hroom : c.HasRoom 1) (hid : c.ids group name = some id)
    {serverId : ServerId} (hnode : serverId ≠ .nil) {sign : Sign} {value : Int64} :
    (c.put group name serverId sign value).ids group name = some id ∧
      ¬ (c.put group name serverId sign value).Deleted id ∧
      (c.put group name serverId sign value).slot (.tombstone group name) = none ∧
      (c.put group name serverId sign value).slot ⟨group, name, serverId, sign⟩ =
        some ⟨value, c.lastEtag + 1⟩ := by
  have hput : (c.put group name serverId sign value).ids group name = some id :=
    ids_put_of_some hid
  have hrevived : (c.put group name serverId sign value).Live group name := live_put_node hnode
  obtain ⟨id', hid', hlive⟩ := hrevived
  obtain rfl : id' = id := Option.some.inj (hid'.symm.trans hput)
  refine ⟨hput, hlive, ?_, (slot_put hs hroom _).trans (if_pos rfl)⟩
  have hne : SlotName.tombstone group name ≠ ⟨group, name, serverId, sign⟩ :=
    fun heq => hnode (congrArg SlotName.serverId heq).symm
  exact (slot_put hs hroom _).trans ((if_neg hne).trans (if_pos rfl))

theorem get_etagToKey_ne_of_not_deleted (h : t.trees.Shows c.ledger) (hnot : ¬ c.Deleted id)
    (key : Bytes) :
    t.get Layout.etagToKey key ≠ .ok (some (SlotKey.tombstone id).bytes) := by
  intro hget
  obtain ⟨etag, p, _, hp, hetag⟩ := exists_etagAt h hget
  obtain rfl : p = .tombstone id := Place.bytes_injective (hp.trans (Place.bytes_tombstone id).symm)
  exact hnot (c.deleted_iff_etagAt.2 ⟨etag, hetag⟩)

end Catalog

namespace Write

variable {s : Session} {home : Node} {c : Catalog} {group name : String} {id : CounterId}

/-- A reset of a counter with a total of zero does nothing. -/
theorem run_reset_of_zero (h : s.Shows home c.ledger) (hlive : c.Live group name)
    (htotal : c.Totals group name 0) : (reset group name).run s = .ok 0 s := by
  have hreset : Returns (reset group name) s fun delta s' => delta = 0 ∧ s' = s := by
    refine (returns_checkLive h hlive).bind ?_
    rintro _ _ rfl
    refine (returns_query (htotal.index_totalOf h.trees hlive)).bind ?_
    rintro _ _ ⟨rfl, rfl⟩
    exact .pure ⟨rfl, rfl⟩
  obtain ⟨_, _, hrun, rfl, rfl⟩ := hreset
  exact hrun

section Writes

variable (h : s.Shows home c.ledger) (hs : c.Sound) (hnode : home.serverId ≠ .nil)

include h hs hnode

/-- A deletion of a live counter. -/
theorem deletes_of_live (hn : c.AllNamed) (hroom : c.HasRoom 3)
    (hid : c.ids group name = some id) (hlive : ¬ c.Deleted id) :
    Returns (delete group name) s fun _ s' => s.Deletes s' group name id ∧
      ∃ c', Catalog.Evolves False 3 c c' ∧ c'.ids group name = some id ∧ c'.Deleted id ∧
        c'.Totals group name 0 ∧ s'.Shows home c'.ledger := by
  refine (returns_deleteLive hs hnode h hn hroom ⟨id, hid, hlive⟩).mono ?_
  rintro _ s' ⟨c', hputs, htombstone, htotal, h'⟩
  have hevolves : Catalog.Evolves False 3 c c' := hputs.evolves
  have hid' : c'.ids group name = some id := hevolves.ids_eq not_false hid
  have hdead := Catalog.dead_of_tombstone htombstone
  have hdeleted : c'.Deleted id := by
    obtain ⟨id', hid'', hdeleted⟩ := Catalog.dead_iff.1 hdead
    obtain rfl : id' = id := Option.some.inj (hid''.symm.trans hid')
    exact hdeleted
  have hforeign : ∀ serverId sign, serverId ≠ .nil → serverId ≠ s.node.serverId →
      c'.slot ⟨group, name, serverId, sign⟩ = c.slot ⟨group, name, serverId, sign⟩ := by
    intro serverId sign hserver hne
    refine (hputs.renews hs hroom).slot_eq hserver fun _ htouches => ?_
    rcases htouches.2 with hown | htomb
    · exact hne (hown.trans h.serverId_eq.symm)
    · exact hserver (congrArg SlotName.serverId htomb)
  refine ⟨?_, c', hevolves, hid', hdeleted, htotal, h'⟩
  constructor
  case live =>
    rw [Catalog.index_liveId? h'.trees, (c'.liveId?_eq_none_iff group name).2 hdead.not_live]
  case deleted =>
    rw [Catalog.index_deletedId? h'.trees,
      (c'.deletedId?_eq_some_iff group name).2 ⟨hid', hdeleted⟩]
  case balanced =>
    obtain ⟨slots, hslots, hlists⟩ := Catalog.index_slotsOf h'.trees hid'
    exact ⟨slots, hslots, Catalog.Totals.unique ⟨slots, hlists, rfl⟩ htotal⟩
  case tombstone =>
    rw [Catalog.index_valueOf? h'.trees]
    exact congrArg Except.ok htombstone
  case values =>
    intro serverId sign hserver hne
    rw [Catalog.index_valueOf? h'.trees, Catalog.index_valueOf? h.trees]
    exact congrArg (fun cell => Except.ok (cell.map Cell.value))
      (hforeign serverId sign hserver hne)
  case etags =>
    intro serverId sign hserver hne
    rw [Catalog.index_etagOf? h'.trees, Catalog.index_etagOf? h.trees]
    exact congrArg (fun cell => Except.ok (cell.map Cell.etag)) (hforeign serverId sign hserver hne)

/-- A store of a deleted counter whose slots add up to zero. -/
theorem revives_of_deleted (hn : c.AllNamed) (hroom : c.HasRoom 1)
    (hid : c.ids group name = some id) (hdeleted : c.Deleted id)
    (htotal : c.Totals group name 0) {delta : Int64} (hdelta : delta ≠ Int64.minValue) :
    Returns (store group name delta) s fun action s' =>
      action = .add ∧ s.Revives s' group name id delta := by
  have hdead : c.Dead group name := Catalog.dead_iff.2 ⟨id, hid, hdeleted⟩
  rcases store_ends h hs hroom hnode group name delta with hstore | ⟨_, _, _, hrefused, _⟩
  · refine hstore.mono ?_
    rintro _ s' ⟨_, ⟨existed, hexisted, rfl⟩, h'⟩
    obtain rfl : existed = false := Bool.eq_false_iff.2 fun heq => hdead.not_live (hexisted.1 heq)
    rw [hs.valueAt_placeFor hroom] at h'
    refine ⟨rfl, ?_⟩
    have hnew := htotal.put_delta hs hroom hnode delta (Catalog.exists_lists h'.trees group name)
    obtain ⟨hid', hlive, htombstone, hslot⟩ := Catalog.revive hs hroom hid hnode
    constructor
    case live => exact (Catalog.index_liveId?_iff h'.trees).2 ⟨hid', hlive⟩
    case total =>
      rw [hnew.index_totalOf h'.trees ⟨id, hid', hlive⟩, Int64.zero_add]
    case tombstone =>
      rw [Catalog.index_valueOf? h'.trees]
      exact congrArg (fun cell => Except.ok (cell.map Cell.value)) htombstone
    case tombstone_etag =>
      rw [Catalog.index_etagOf? h'.trees]
      exact congrArg (fun cell => Except.ok (cell.map Cell.etag)) htombstone
    case feed => exact Catalog.get_etagToKey_ne_of_not_deleted h'.trees hlive
    case dates => exact Catalog.valuesStarting_dates_of_not_deleted h'.trees hlive
    case fresh =>
      have hlt : c.lastEtag < c.lastEtag + 1 := Catalog.lt_add_one_of_room hroom.1 one_pos
      refine ⟨c.lastEtag + 1, ?_, ?_, fun key slot hget => ?_⟩
      · rw [Catalog.index_etagOf? h'.trees, h.serverId_eq]
        exact congrArg (fun cell => Except.ok (cell.map Cell.etag)) hslot
      · exact h.lastEtag ▸ hlt
      · obtain ⟨etag, p, hkey, _, hetag⟩ := Catalog.exists_etagAt h.trees hget
        exact ⟨etag, hkey, UInt64.lt_of_le_of_lt (hs.etagAt_le hetag) hlt⟩
  · exact absurd ⟨hn.listed hs hid, hdelta⟩ hrefused

end Writes

end Write

namespace Stage

variable {stage stage' : Stage} {base cur : Catalog}

/-- No call is made and no writer is dropped. -/
def Event.Quiet : Event → Prop
  | .call _ => False
  | .drop => False
  | _ => True

/-- What a writer has done stays while no call is made and it is not dropped: it is committed, and
later writers start from it. -/
theorem Leads.presents_cur (h : Leads Event.Quiet stage stage') (hreachable : Reachable stage)
    (hpresents : stage.Presents base cur) : ∃ base', stage'.Presents base' cur := by
  induction h with
  | refl => exact ⟨base, hpresents⟩
  | turn h hallowed hturn ih =>
      obtain ⟨base', hpresents'⟩ := ih
      obtain ⟨base'', cur'', hpresents'', hmoves⟩ :=
        (hturn.toStep (h.reachable hreachable).dense).presents hpresents'
      cases hmoves with
      | call call hroom hevolves hnamed => exact hallowed.elim
      | drop => exact hallowed.elim
      | _ => exact ⟨_, hpresents''⟩

/-- In every state of a run a live counter is reset to zero unless its total has no negation, and
deleted whatever its total; a store that follows, of this writer or of a later one, revives it. -/
theorem Reachable.resets_deletes_revives {engine : Engine} {s : Session}
    (h : Reachable (writing engine s)) {group name : String} {id : CounterId}
    (hlive : Index.liveId? s.writer.transaction group name = .ok (some id))
    (hetag : s.writer.lastEtag.toNat + 3 < UInt64.size)
    (hcounterId : s.writer.lastCounterId.toNat + 3 < UInt64.size) :
    ∃ total, Index.totalOf s.writer.transaction group name = .ok total ∧
      (total ≠ Int64.minValue → ∃ s', (Write.reset group name).run s = .ok (-total) s' ∧
        Index.totalOf s'.writer.transaction group name = .ok 0 ∧
        (Write.reset group name).run s' = .ok 0 s') ∧
      ∃ s', (Write.delete group name).run s = .ok () s' ∧ s.Deletes s' group name id ∧
        ∀ engine' s₁, Leads Event.Quiet (writing engine s') (writing engine' s₁) →
          s₁.writer.lastEtag.toNat + 1 < UInt64.size →
          s₁.writer.lastCounterId.toNat + 1 < UInt64.size →
          ∀ delta, delta ≠ Int64.minValue →
            ∃ s₂, (Write.store group name delta).run s₁ = .ok .add s₂ ∧
              s₁.Revives s₂ group name id delta := by
  obtain ⟨base, cur, hpresents⟩ := h.presents
  obtain ⟨hs, hr, home, hcommitted, hshows⟩ := hpresents.carries
  have hn := hpresents.named_cur
  obtain ⟨hid, hnot⟩ := (Catalog.index_liveId?_iff hshows.trees).1 hlive
  have hstep : Step (writing engine s) (.call (.delete group name))
      (writing engine ((Call.delete group name).finish s)) := .call _ hetag hcounterId
  rw [hshows.lastEtag] at hetag
  rw [hshows.lastCounterId] at hcounterId
  have hroom : cur.HasRoom 3 := ⟨hetag, hcounterId⟩
  obtain ⟨slots, hlists⟩ := Catalog.exists_lists hshows.trees group name
  obtain ⟨total, htotal⟩ : ∃ total, cur.Totals group name total := ⟨_, slots, hlists, rfl⟩
  refine ⟨total, htotal.index_totalOf hshows.trees ⟨id, hid, hnot⟩, fun hmin => ?_, ?_⟩
  · obtain ⟨_, s', hrun, rfl, c', _, hlive', htotal', h'⟩ :=
      Write.returns_reset hs hcommitted.serverId hshows hn (hroom.mono (by omega))
        ⟨id, hid, hnot⟩ htotal hmin
    exact ⟨s', hrun, htotal'.index_totalOf h'.trees hlive',
      Write.run_reset_of_zero h' hlive' htotal'⟩
  · obtain ⟨_, s', hrun, hdeletes, c', hevolves, hid', hdeleted, htotal', h'⟩ :=
      Write.deletes_of_live hshows hs hcommitted.serverId hn hroom hid hnot
    refine ⟨s', hrun, hdeletes, fun engine' s₁ hleads hetag' hcounterId' delta hdelta => ?_⟩
    have hfinish : (Call.delete group name).finish s = s' := by
      exact leaving_of_ok hrun
    rw [hfinish] at hstep
    obtain ⟨_, cur', hpresents', _⟩ := hstep.presents hpresents
    obtain ⟨_, _, _, _, hshows'⟩ := hpresents'.carries
    obtain rfl : cur' = c' := hshows'.catalog_unique h'
    obtain ⟨_, hpresents₁⟩ := hleads.presents_cur (h.step hstep) hpresents'
    obtain ⟨hs₁, _, home₁, hcommitted₁, hshows₁⟩ := hpresents₁.carries
    rw [hshows₁.lastEtag] at hetag'
    rw [hshows₁.lastCounterId] at hcounterId'
    obtain ⟨_, s₂, hrun₂, rfl, hrevives⟩ := Write.revives_of_deleted hshows₁ hs₁
      hcommitted₁.serverId hpresents₁.named_cur ⟨hetag', hcounterId'⟩ hid' hdeleted htotal' hdelta
    exact ⟨s₂, hrun₂, hrevives⟩

/-- Another node has brought the counter to the least total, which the first store of the deletion
does not balance. -/
theorem revives_of_least_total : ∃ s s' s₂ : Session,
    Index.totalOf s.writer.transaction "group" "name" = .ok Int64.minValue ∧
    (Write.delete "group" "name").run s = .ok () s' ∧ s.Deletes s' "group" "name" 1 ∧
    (Write.store "group" "name" (-7)).run s' = .ok .add s₂ ∧
    s'.Revives s₂ "group" "name" 1 (-7) := by
  obtain ⟨engine, s, _, hreachable, hlive, htotal, hetag, hcounterId, hetag', hcounterId'⟩ :=
    exists_afterCalls_of_finds plainOpening rfl (by decide) (by decide)
      [.storeReplicated "group" "name" ⟨List.replicate 16 9, rfl⟩ .positive Int64.minValue]
      (by decide)
      (fun _ s => Index.liveId? s.writer.transaction "group" "name" = .ok (some 1) ∧
        Index.totalOf s.writer.transaction "group" "name" = .ok Int64.minValue ∧
        s.writer.lastEtag = 1 ∧ s.writer.lastCounterId = 1 ∧
        ((Call.delete "group" "name").finish s).writer.lastEtag = 4 ∧
        ((Call.delete "group" "name").finish s).writer.lastCounterId = 1) (by decide +kernel)
  obtain ⟨_, _, _, s', hrun, hdeletes, hrevives⟩ := hreachable.resets_deletes_revives hlive
    (by rw [hetag]; decide) (by rw [hcounterId]; decide)
  have hfinish : (Call.delete "group" "name").finish s = s' := by
    exact leaving_of_ok hrun
  rw [hfinish] at hetag' hcounterId'
  obtain ⟨s₂, hrun₂, hrevives₂⟩ := hrevives engine s' .refl (by rw [hetag']; decide)
    (by rw [hcounterId']; decide) (-7) (by decide)
  exact ⟨s, s', s₂, htotal, hrun, hdeletes, hrun₂, hrevives₂⟩

end Stage

end CounterMesh
