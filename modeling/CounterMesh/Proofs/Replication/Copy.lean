import CounterMesh.Proofs.Replication.Exchange
import CounterMesh.Proofs.Store.Indexes
import CounterMesh.Proofs.Store.Reading
import CounterMesh.Proofs.Store.Stages

/-!
# Copies of a store

The feed of a store from its start holds the last write of every slot, in the
order of the etags. A store without counters that applies it ends up with the
same values in the same slots. The slot of a node revives its counter and a
tombstone deletes it, so that it matters which of them comes last; it is the
tombstone, because it is newer than all other slots of its counter.
-/

namespace CounterMesh

/-- Readers of both are told the same about every counter. Ids and etags may differ. -/
structure Transaction.SameCounters (t t' : Transaction) : Prop where
  live : ∀ group name, ∃ found found', Index.liveId? t group name = .ok found ∧
    Index.liveId? t' group name = .ok found' ∧ found.isSome = found'.isSome
  deleted : ∀ group name, ∃ found found', Index.deletedId? t group name = .ok found ∧
    Index.deletedId? t' group name = .ok found' ∧ found.isSome = found'.isSome
  /-- The value of every slot; that of a tombstone is its time of deletion. -/
  value : ∀ group name owner sign, ∃ found, Index.valueOf? t group name owner sign = .ok found ∧
    Index.valueOf? t' group name owner sign = .ok found
  slots : ∀ group name, Index.slotsOf t group name = Index.slotsOf t' group name
  total : ∀ group name, Index.totalOf t group name = Index.totalOf t' group name

namespace Catalog

variable {c c' source : Catalog} {t t' : Transaction} {own : ServerId}
variable {feed entries : List FeedEntry}

theorem SameValues.sameCounters (hsame : c.SameValues c') (h : t.trees.Shows c.ledger)
    (h' : t'.trees.Shows c'.ledger) (hs : c.Sound) (hs' : c'.Sound) : t.SameCounters t' where
  live := by
    intro group name
    refine ⟨_, _, index_liveId? h, index_liveId? h', ?_⟩
    rw [Bool.eq_iff_iff, isSome_liveId?_iff, isSome_liveId?_iff, hsame.live_iff hs hs']
  deleted := by
    intro group name
    refine ⟨_, _, index_deletedId? h, index_deletedId? h', ?_⟩
    rw [Bool.eq_iff_iff, isSome_deletedId?_iff, isSome_deletedId?_iff, hsame.dead_iff]
  value := by
    intro group name owner sign
    refine ⟨_, index_valueOf? h group name owner sign, ?_⟩
    rw [index_valueOf? h', hsame]
  slots := hsame.index_slotsOf h h' hs hs'
  total := hsame.index_totalOf h h' hs hs'

/-- Entries of different slots, none of which is in place, are all put. -/
theorem written_eq_length (hs : c.Sound) (hroom : c.HasRoom entries.length)
    (hunique : (entries.map FeedEntry.slotName).Nodup)
    (hforeign : ∀ e ∈ entries, e.serverId ≠ own)
    (hreserved : ∀ e ∈ entries, e.serverId = .nil → e.sign = .positive)
    (hnone : ∀ e ∈ entries, c.slot e.slotName = none) : c.written own entries = entries.length := by
  induction entries generalizing c with
  | nil => rfl
  | cons e rest ih =>
      rw [List.forall_mem_cons] at hforeign hreserved hnone
      rw [List.map_cons, List.nodup_cons] at hunique
      rw [List.length_cons, Nat.add_comm] at hroom
      have hroom' : c.HasRoom 1 := hroom.mono (Nat.le_add_right _ _)
      have hevolves : Evolves False 1 c (c.receive own e) := evolves_receive (.refl 0 c) own e
      rcases receive_cases (c := c) own hreserved.1 with ⟨hknows, _⟩ | ⟨_, hput⟩
      · have hvalue := (((knows_iff_inPlace hreserved.1).1 hknows).resolve_left hforeign.1).holds
        rw [hnone.1] at hvalue
        cases hvalue
      · have hknows : c.knows own e = false := by
          rw [Bool.eq_false_iff, ne_eq, knows_iff, hnone.1]
          exact fun h => h.elim hforeign.1 nofun
        have hrest : ∀ e' ∈ rest, (c.receive own e).slot e'.slotName = none := by
          intro e' he'
          rw [hput, slot_put hs hroom', if_neg, hnone.2 e' he', ite_self]
          intro hsame
          exact hunique.1 (List.mem_map.2 ⟨e', he', hsame⟩)
        rw [written, hknows, if_neg Bool.false_ne_true, List.length_cons, Nat.add_comm,
          ih (hevolves.sound hs hroom') (hevolves.hasRoom hroom) hunique.2 hforeign.2 hreserved.2
            hrest]

/-- A catalog without slots holds what the source holds once it has absorbed its feed. -/
theorem sameValues_absorb (hfeed : source.Feed feed) (hsource : source.Sound) (hs : c.Sound)
    (hempty : ∀ k, c.slot k = none) (hroom : c.HasRoom feed.length)
    (hforeign : ∀ k cell, source.slot k = some cell → k.serverId ≠ own) :
    source.SameValues (c.absorb own feed) := by
  have habsorbed := absorbed_absorb own hs hroom hsource hfeed.sorted
    fun e he => (hfeed.mem_iff e).1 he
  intro k
  cases hk : source.slot k with
  | none =>
      rcases habsorbed.renews.slot k with heq | ⟨cell, _, _, _, hvalue⟩ | ⟨hgone, _⟩
      · rw [heq, hempty]
      · rw [hk] at hvalue
        cases hvalue
      · rw [hgone]
  | some cell =>
      have he : .about k cell ∈ feed := hfeed.mem_about_iff.2 hk
      by_cases hnode : k.serverId = .nil
      · have htombstone := hsource.eq_tombstone hk hnode
        rcases habsorbed.counter k.group k.name with ⟨_, hnone⟩ |
          ⟨e, he', hof, _, hplace, hnewest⟩
        · exact absurd (hnone _ he k.of_self) (hforeign k cell hk)
        · -- The tombstone is not older than the newest entry of the counter, so it is that one.
          have hslot := (hfeed.mem_iff e).1 he'
          have hle : cell.etag ≤ e.etag := hnewest _ he k.of_self (hforeign k cell hk)
          have hcounter : SlotName.tombstone e.group e.name = k :=
            (congrArg₂ SlotName.tombstone hof.1 hof.2).trans htombstone.symm
          have htomb : source.slot (.tombstone e.group e.name) = some cell := by
            rw [hcounter, hk]
          have hnil : e.serverId = .nil := by
            by_contra hother
            exact absurd (hsource.etag_lt_tombstone hslot htomb hother) (UInt64.not_lt.2 hle)
          have heq : e.slotName = k := (hsource.eq_tombstone hslot hnil).trans hcounter
          rw [heq, hk, Option.some.injEq] at hslot
          have hvalue := hplace.holds
          rw [heq] at hvalue
          rw [hvalue, hslot]
          rfl
      · have hvalue := habsorbed.holds _ he hnode (hforeign k cell hk)
        exact hvalue.symm

end Catalog

/-- The feed of any stage of a run, as it is told from its start, makes a copy of a store without
counters that owns none of the slots: no entry is skipped, and readers of the copy are told what
readers of the stage are told. -/
theorem Stage.Reachable.copied {stage : Stage} (h : stage.Reachable) {db : Database}
    {lastEtag : Etag} (hhas : stage.Has db lastEtag) {opening : Opening} {target : Store}
    (hstart : opening.start .empty = .ok target) (hfresh : opening.fresh ≠ .nil)
    (hforeign : ∀ group name sign, Index.valueOf? ⟨.read, db⟩ group name
      (.ofServer target.node.serverId) sign = .ok none) (sender : ServerId) (notify : Bool) :
    ∃ entries, (∀ max, entries.length ≤ max → Index.changes ⟨.read, db⟩ 0 max = .ok entries) ∧
      Returns (StoreM.transact notify (Write.applyMessage ⟨sender, entries⟩)) target
        fun outcome target' => outcome.skipped = 0 ∧ outcome.applied = entries.length ∧
          Transaction.SameCounters ⟨.read, db⟩ target'.engine.snapshot := by
  obtain ⟨base, cur, hpresents⟩ := h.presents
  obtain ⟨c, hs, hnamed, hshows, _⟩ := hpresents.has hhas
  obtain ⟨feed, hfeed, _, _, hchanges⟩ := Catalog.exists_feed (t := ⟨.read, db⟩) hshows hs
  have hslot : ∀ e ∈ feed, c.slot e.slotName = some e.cell := fun e he => (hfeed.mem_iff e).1 he
  have htarget := Opening.start_empty hstart hfresh
  generalize hown : target.node.serverId = own at hforeign htarget
  have hother : ∀ k cell, c.slot k = some cell → k.serverId ≠ own := by
    rintro k cell hk rfl
    have hfound := hforeign k.group k.name k.sign
    rw [Catalog.index_valueOf? (t := ⟨.read, db⟩) hshows, Owner.server_ofServer, hk] at hfound
    cases hfound
  have hempty : ∀ k, (Catalog.initial own).slot k = none := fun k =>
    Catalog.slot_of_not_listed rfl
  have hroom : (Catalog.initial own).HasRoom feed.length := by
    have hlength : (0 : UInt64).toNat + feed.length < UInt64.size := by
      rw [UInt64.toNat_zero, Nat.zero_add]
      exact hfeed.length_lt hs
    exact ⟨hlength, hlength⟩
  refine ⟨feed, fun max hmax => ?_, ?_⟩
  · rw [hchanges, hfeed.after_zero hs, List.take_of_length_le hmax]
  · refine (StoreM.returns_applyMessage htarget notify ⟨sender, feed⟩
      (fun e he => hnamed _ _ (hslot e he)) hroom).mono ?_
    rintro outcome target' ⟨hcounts, htarget'⟩
    have hwritten := Catalog.written_eq_length htarget.keeps.sound hroom hfeed.unique_slots
      (fun e he => hother _ _ (hslot e he)) (fun e he => hs.reserved_sign (hslot e he))
      fun e _ => hempty e.slotName
    have happlied : outcome.applied = feed.length := hcounts.applied.trans hwritten
    have hall : outcome.applied + outcome.skipped = feed.length := hcounts.all
    refine ⟨by omega, happlied, ?_⟩
    have hsame : c.SameValues ((Catalog.initial own).apply own ⟨sender, feed⟩) := by
      intro k
      rw [Catalog.slot_apply]
      exact Catalog.sameValues_absorb hfeed hs htarget.keeps.sound hempty hroom hother k
    exact hsame.sameCounters hshows htarget'.keeps.shows hs htarget'.keeps.sound

/-- A server that the feed does not name owns no slot. -/
theorem Stage.Reachable.valueOf?_eq_none {stage : Stage} (h : stage.Reachable) {db : Database}
    {lastEtag : Etag} (hhas : stage.Has db lastEtag) {entries : List FeedEntry} {max : Nat}
    (hchanges : Index.changes ⟨.read, db⟩ 0 max = .ok entries) (hlength : entries.length < max)
    (serverId : ServerId) (hforeign : ∀ e ∈ entries, e.serverId ≠ serverId)
    (group name : String) (sign : Sign) :
    Index.valueOf? ⟨.read, db⟩ group name (.ofServer serverId) sign = .ok none := by
  obtain ⟨base, cur, hpresents⟩ := h.presents
  obtain ⟨c, hs, _, hshows, _⟩ := hpresents.has hhas
  obtain ⟨feed, hfeed, _, _, hfront⟩ := Catalog.exists_feed (t := ⟨.read, db⟩) hshows hs
  rw [hfront, hfeed.after_zero hs, Except.ok.injEq] at hchanges
  -- Fewer entries than were asked for are the whole feed.
  have hwhole : entries = feed := by
    rw [← hchanges, List.length_take] at hlength
    rw [← hchanges]
    exact List.take_of_length_le (by omega)
  rw [Catalog.index_valueOf? (t := ⟨.read, db⟩) hshows, Owner.server_ofServer]
  cases hk : c.slot ⟨group, name, serverId, sign⟩ with
  | none => rfl
  | some cell =>
      have he : .about ⟨group, name, serverId, sign⟩ cell ∈ entries :=
        hwhole ▸ hfeed.mem_about_iff.2 hk
      exact absurd rfl (hforeign _ he)

/-- A deleted counter and a live one are copied to a store that has never heard of them. -/
theorem copied_of_deletion : ∃ engine s target entries,
    Stage.afterCalls plainOpening
      [.store "group" "name" 5, .delete "group" "name", .store "group" "other" 2] =
        .ok (.writing engine s) ∧
    Opening.start { fresh := ⟨List.replicate 16 2, rfl⟩ } .empty = .ok target ∧
    (∀ max, entries.length ≤ max →
      Index.changes ⟨.read, s.writer.transaction.trees⟩ 0 max = .ok entries) ∧
    Returns (StoreM.transact true (Write.applyMessage ⟨plainOpening.fresh, entries⟩)) target
      fun outcome target' => outcome.skipped = 0 ∧ outcome.applied = entries.length ∧
        Transaction.SameCounters ⟨.read, s.writer.transaction.trees⟩ target'.engine.snapshot := by
  obtain ⟨engine, s, hcalls, hreachable, hfeed⟩ := Stage.exists_afterCalls_of_finds
    plainOpening rfl (by decide) (by decide)
    [.store "group" "name" 5, .delete "group" "name", .store "group" "other" 2]
    (by decide)
    (fun _ s => Index.changes ⟨.read, s.writer.transaction.trees⟩ 0 9 = .ok [
      ⟨"group", "name", plainOpening.fresh, .positive, 5, 1⟩,
      ⟨"group", "name", plainOpening.fresh, .negative, 5, 2⟩,
      ⟨"group", "name", .nil, .positive, 1704067200000, 3⟩,
      ⟨"group", "other", plainOpening.fresh, .positive, 2, 4⟩]) (by decide +kernel)
  obtain ⟨target, hstart, hholds⟩ :=
    @Opening.exists_start_empty { fresh := ⟨List.replicate 16 2, rfl⟩ } rfl (by decide) (by decide)
  have hforeign := hreachable.valueOf?_eq_none .writer hfeed (by decide) target.node.serverId
    (by rw [hholds.serverId_eq]; decide)
  obtain ⟨entries, hchanges, hcopy⟩ := hreachable.copied .writer hstart (by decide) hforeign
    plainOpening.fresh true
  exact ⟨engine, s, target, entries, hcalls, hstart, hchanges, hcopy⟩

end CounterMesh
