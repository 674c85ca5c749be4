import CounterMesh.Proofs.Replication.Absorb
import CounterMesh.Proofs.Store.Indexes
import CounterMesh.Proofs.Store.Stages

/-!
# Consumers of the change feed

A consumer asks a store again and again for the changes behind the last etag that
it has seen, as many as it likes at a time, while writers go on committing. Slots
that are written again move to the end of the feed, and slots that are purged or
revived away leave it. Nothing that is there is ever missed, because every new
write comes under an etag behind all that were committed before: once the
consumer is told that there is nothing more, the last entry that it received
about each slot is how the slot stands.
-/

namespace CounterMesh

/-- The entry tells how the slot with this key stands: its value and its etag, and the group and
the name of its counter. -/
structure Transaction.Tells (t : Transaction) (e : FeedEntry) (key : Bytes) : Prop where
  value : t.get Layout.counters key = .ok (some (Word.little e.value))
  etag : t.get Layout.keyToEtag key = .ok (some (Word.big e.etag))
  name : ∃ id, key = SlotKey.bytes ⟨id, .ofServer e.serverId, e.sign⟩ ∧
    t.get Layout.counterNames (NameKey.bytes id (Bytes.ofText e.name)) =
      .ok (some (Bytes.ofText e.group))

/-- The entries tell exactly how the slots behind an etag stand, one entry for each of them, in the
order of their etags. -/
structure Transaction.FeedsExactly (t : Transaction) (since : Etag) (entries : List FeedEntry) :
    Prop where
  sorted : entries.Pairwise fun e e' => e.etag < e'.etag
  sound : ∀ e ∈ entries, since < e.etag ∧ ∃ key, t.Tells e key
  complete : ∀ key value, t.get Layout.counters key = .ok (some value) →
    ∃ etag, t.get Layout.keyToEtag key = .ok (some (Word.big etag)) ∧
      (since < etag → ∃! e, e ∈ entries ∧ t.Tells e key)

namespace Catalog

variable {c : Catalog} {t : Transaction} {e : FeedEntry} {k : SlotName} {cell : Cell}
variable {feed : List FeedEntry}

theorem tells_iff (h : t.trees.Shows c.ledger) {key : Bytes} :
    t.Tells e key ↔ ∃ id, key = Place.bytes ⟨id, e.serverId, e.sign⟩ ∧
      c.ids e.group e.name = some id ∧ c.cells ⟨id, e.serverId, e.sign⟩ = some e.cell := by
  constructor
  · rintro ⟨hvalue, hetag, id, rfl, hname⟩
    obtain ⟨p, value, hp, hword, hvalue⟩ := (Transaction.get_eq_some_iff h .values).1 hvalue
    obtain ⟨q, etag, hq, hword', hetag⟩ := (Transaction.get_eq_some_iff h .etags).1 hetag
    obtain ⟨⟨id', n⟩, g, hkey, hgroup, hid⟩ := (Transaction.get_eq_some_iff h .names).1 hname
    obtain rfl := Word.little_injective hword
    obtain rfl := Word.big_injective hword'
    obtain rfl : p = ⟨id, e.serverId, e.sign⟩ := Place.bytes_injective hp
    obtain rfl : q = ⟨id, e.serverId, e.sign⟩ := Place.bytes_injective hq
    obtain ⟨rfl, rfl⟩ := Prod.mk.inj (Code.nameKey.injective hkey)
    obtain rfl := Bytes.ofText_injective hgroup
    obtain ⟨value, hcell⟩ := c.etagAt_eq_some_iff.1 hetag
    have hvalue' : c.valueAt ⟨id', e.serverId, e.sign⟩ = some e.value := hvalue
    rw [valueAt, hcell, Option.map_some, Option.some.injEq] at hvalue'
    obtain rfl : value = e.value := hvalue'
    exact ⟨_, rfl, hid, hcell⟩
  · rintro ⟨id, rfl, hid, hcell⟩
    have hvalue : c.valueAt ⟨id, e.serverId, e.sign⟩ = some e.value := by rw [valueAt, hcell]; rfl
    have hetag : c.etagAt ⟨id, e.serverId, e.sign⟩ = some e.etag := by rw [etagAt, hcell]; rfl
    exact ⟨(Transaction.get_eq_some_iff h .values).2 ⟨_, _, rfl, rfl, hvalue⟩,
      (Transaction.get_eq_some_iff h .etags).2 ⟨_, _, rfl, rfl, hetag⟩, id, rfl,
      (Transaction.get_eq_some_iff h .names).2 ⟨(id, e.name), e.group, rfl, rfl, hid⟩⟩

/-- Every slot is told by the entry with its name, its value and its etag. -/
theorem exists_tells (h : t.trees.Shows c.ledger) (hs : c.Sound) {key value : Bytes}
    (hkey : t.get Layout.counters key = .ok (some value)) :
    ∃ k cell, c.slot k = some cell ∧ t.Tells (.about k cell) key := by
  obtain ⟨p, v, rfl, _, hvalue⟩ := (Transaction.get_eq_some_iff h .values).1 hkey
  obtain ⟨cell, hcell, _⟩ := Option.map_eq_some_iff.1 hvalue
  obtain ⟨group, name, hid, hk⟩ := hs.exists_slot hcell
  exact ⟨⟨group, name, p.serverId, p.sign⟩, cell, hk,
    (tells_iff h).2 ⟨p.counterId, rfl, hid, hcell⟩⟩

/-- The entry of a slot is told by the key of the slot. -/
theorem tells_of_slot (h : t.trees.Shows c.ledger) (he : c.slot e.slotName = some e.cell) :
    ∃ key, t.Tells e key := by
  obtain ⟨id, hid, hcell⟩ := slot_eq_some_iff.1 he
  exact ⟨_, (tells_iff h).2 ⟨id, rfl, hid, hcell⟩⟩

theorem slot_of_tells (h : t.trees.Shows c.ledger) {key : Bytes} (he : t.Tells e key) :
    c.slot e.slotName = some e.cell := by
  obtain ⟨id, _, hid, hcell⟩ := (tells_iff h).1 he
  exact slot_eq_some_iff.2 ⟨id, hid, hcell⟩

/-- A slot is told by one entry, since it has one etag. -/
theorem tells_unique (h : t.trees.Shows c.ledger) (hs : c.Sound) {e' : FeedEntry} {key : Bytes}
    (he : t.Tells e key) (he' : t.Tells e' key) : e = e' := by
  have hword := he.etag.symm.trans he'.etag
  rw [Except.ok.injEq, Option.some.injEq] at hword
  exact FeedEntry.ext_iff_slot.2
    (hs.slot_unique (slot_of_tells h he) (slot_of_tells h he') (Word.big_injective hword))

/-- The feed behind an etag tells exactly how the slots behind it stand. -/
theorem Feed.feedsExactly (hfeed : c.Feed feed) (h : t.trees.Shows c.ledger) (hs : c.Sound)
    (since : Etag) : t.FeedsExactly since (feedAfter feed since) where
  sorted := hfeed.sorted.sublist List.filter_sublist
  sound := by
    intro e he
    obtain ⟨hmem, hlt⟩ := List.mem_filter.1 he
    exact ⟨of_decide_eq_true hlt, tells_of_slot h ((hfeed.mem_iff e).1 hmem)⟩
  complete := by
    intro key value hkey
    obtain ⟨k, cell, hk, htells⟩ := exists_tells h hs hkey
    refine ⟨cell.etag, htells.etag, fun hlt => ⟨.about k cell, ⟨?_, htells⟩, ?_⟩⟩
    · exact List.mem_filter.2 ⟨hfeed.mem_about_iff.2 hk, decide_eq_true hlt⟩
    · rintro e ⟨_, htells'⟩
      exact tells_unique h hs htells' htells

/-- The consumer is up to date with the catalog up to the etag that it has seen. -/
structure Follower (c : Catalog) (seen : Etag) (received : List FeedEntry) : Prop where
  seen_le : seen ≤ c.lastEtag
  current : ∀ k cell, c.slot k = some cell → cell.etag ≤ seen →
    lastAbout received k = some (.about k cell)

namespace Follower

variable {seen : Etag} {received : List FeedEntry} {c' : Catalog}

theorem start (hs : c.Sound) : Follower c 0 [] where
  seen_le := UInt64.zero_le
  current := fun _ _ hk hle => absurd (hs.slot_etag_pos hk) (UInt64.not_lt.2 hle)

/-- What is committed later has etags that the consumer has not seen. -/
theorem follows (h : Follower c seen received) (hs : c.Sound) (hfollows : c.Follows c') :
    Follower c' seen received where
  seen_le := UInt64.le_trans h.seen_le hfollows.lastEtag_le
  current := by
    intro k cell hk hle
    refine h.current k cell ((hfollows.slot hs hk).resolve_right ?_) hle
    exact UInt64.not_lt.2 (UInt64.le_trans hle h.seen_le)

/-- The next entries of the feed bring the consumer up to the last of them. -/
theorem poll (h : Follower c seen received) (hs : c.Sound) (hfeed : c.Feed feed) (max : Nat) :
    Follower c (cursorAfter seen ((feedAfter feed seen).take max))
      (received ++ (feedAfter feed seen).take max) where
  seen_le := by
    rcases cursorAfter_cases seen ((feedAfter feed seen).take max) with heq | ⟨e, he, heq⟩
    · rw [heq]
      exact h.seen_le
    · rw [heq]
      exact hs.slot_etag_le ((hfeed.mem_iff e).1 (List.mem_filter.1 (List.mem_of_mem_take he)).1)
  current := by
    intro k cell hk hle
    generalize hbatch : (feedAfter feed seen).take max = batch at hle
    have habout : ∀ e ∈ batch, e.slotName = k → e = .about k cell := by
      rintro e he rfl
      rw [← hbatch] at he
      have hslot := (hfeed.mem_iff e).1 (List.mem_filter.1 (List.mem_of_mem_take he)).1
      rw [hk, Option.some.injEq] at hslot
      exact FeedEntry.ext_iff_slot.2 ⟨rfl, hslot.symm⟩
    rw [lastAbout_append]
    by_cases hmem : .about k cell ∈ batch
    · cases hlast : lastAbout batch k with
      | none => exact absurd rfl (lastAbout_eq_none_iff.1 hlast _ hmem)
      | some e =>
          obtain ⟨he, hname⟩ := mem_of_lastAbout hlast
          rw [Option.some_or, habout e he hname]
    · -- The slot is not among the entries of the batch, so the consumer has seen it before.
      have hnone : lastAbout batch k = none :=
        lastAbout_eq_none_iff.2 fun e he hname => hmem (habout e he hname ▸ he)
      rw [hnone, Option.none_or]
      refine h.current k cell hk (UInt64.not_lt.1 fun hlt => hmem ?_)
      have hafter : .about k cell ∈ feedAfter feed seen :=
        List.mem_filter.2 ⟨hfeed.mem_about_iff.2 hk, decide_eq_true hlt⟩
      have hrest := hfeed.feedAfter_cursorAfter seen max
      rw [← List.take_append_drop max (feedAfter feed seen), hbatch] at hafter
      refine (List.mem_append.1 hafter).resolve_right fun hdrop => ?_
      rw [← hrest, hbatch] at hdrop
      exact absurd (of_decide_eq_true (List.mem_filter.1 hdrop).2) (UInt64.not_lt.2 hle)

end Follower

end Catalog

/-- A consumer of the feed: the last etag that it has seen, and the entries that it received. -/
structure Consumer where
  seen : Etag := 0
  received : List FeedEntry := []

namespace Consumer

/-- The consumer after a batch. -/
def take (consumer : Consumer) (batch : List FeedEntry) : Consumer :=
  ⟨cursorAfter consumer.seen batch, consumer.received ++ batch⟩

/-- A run of a store with a consumer, which starts at any stage and polls the committed trees at any
stage, for at least one entry. -/
inductive Polled : Stage → Consumer → Prop where
  | start {stage : Stage} (h : stage.Reachable) : Polled stage {}
  | step {stage stage' : Stage} {consumer : Consumer} {event : Event} (h : Polled stage consumer)
      (hstep : stage.Step event stage') : Polled stage' consumer
  | poll {stage : Stage} {consumer : Consumer} {max : Nat} {batch : List FeedEntry}
      (h : Polled stage consumer) (hmax : 1 ≤ max)
      (hbatch : Index.changes stage.reader consumer.seen max = .ok batch) :
      Polled stage (consumer.take batch)

variable {stage : Stage} {consumer : Consumer}

theorem Polled.follower (h : Polled stage consumer) : ∃ base cur, stage.Presents base cur ∧
    base.Follower consumer.seen consumer.received := by
  induction h with
  | start h =>
      obtain ⟨base, cur, hpresents⟩ := h.presents
      exact ⟨base, cur, hpresents, .start hpresents.keeps.sound⟩
  | step h hstep ih =>
      obtain ⟨base, cur, hpresents, hfollower⟩ := ih
      obtain ⟨base', cur', hpresents', hmoves⟩ := hstep.presents hpresents
      exact ⟨base', cur', hpresents',
        hfollower.follows hpresents.keeps.sound (hmoves.follows_base hpresents.follows)⟩
  | @poll stage consumer max batch h hmax hbatch ih =>
      obtain ⟨base, cur, hpresents, hfollower⟩ := ih
      have hshows : stage.reader.trees.Shows base.ledger := hpresents.keeps.shows
      have hs := hpresents.keeps.sound
      obtain ⟨feed, hfeed, _, _, hchanges⟩ := Catalog.exists_feed hshows hs
      rw [hchanges, Except.ok.injEq] at hbatch
      refine ⟨base, cur, hpresents, ?_⟩
      rw [← hbatch]
      exact hfollower.poll hs hfeed max

/-- Whatever writers commit between the polls of a consumer, the feed of the store is exact behind
every etag, no poll fails, and after an empty batch the last entry that was received about every
slot tells how it stands. -/
theorem Polled.exact_and_current (h : Polled stage consumer) :
    (∀ since, ∃ entries, Index.feed stage.reader since = .ok (entries.map .ok) ∧
      stage.reader.FeedsExactly since entries) ∧
    (∀ max, ∃ batch, Index.changes stage.reader consumer.seen max = .ok batch) ∧
    ∀ max, 1 ≤ max → Index.changes stage.reader consumer.seen max = .ok [] →
      ∀ key value, stage.reader.get Layout.counters key = .ok (some value) →
        ∃ e, lastAbout consumer.received e.slotName = some e ∧ stage.reader.Tells e key := by
  obtain ⟨base, cur, hpresents, hfollower⟩ := h.follower
  have hshows : stage.reader.trees.Shows base.ledger := hpresents.keeps.shows
  have hs := hpresents.keeps.sound
  obtain ⟨feed, hfeed, _, hentries, hchanges⟩ := Catalog.exists_feed hshows hs
  refine ⟨fun since => ⟨_, hentries since, hfeed.feedsExactly hshows hs since⟩,
    fun max => ⟨_, hchanges _ max⟩, fun max hmax hempty key value hkey => ?_⟩
  obtain ⟨k, cell, hk, htells⟩ := Catalog.exists_tells hshows hs hkey
  refine ⟨.about k cell, hfollower.current k cell hk (UInt64.not_lt.1 fun hlt => ?_), htells⟩
  have hafter : .about k cell ∈ feedAfter feed consumer.seen :=
    List.mem_filter.2 ⟨hfeed.mem_about_iff.2 hk, decide_eq_true hlt⟩
  rw [hchanges, Except.ok.injEq, List.take_eq_nil_iff] at hempty
  rcases hempty with hzero | hnil
  · omega
  · rw [hnil] at hafter
    cases hafter

/-- A consumer that takes one entry at a time has the newest entry of a slot that was written
again. -/
theorem current_of_rewritten_slot : ∃ stage consumer, Polled stage consumer ∧
    consumer.received = [⟨"group", "other", plainOpening.fresh, .positive, 2, 2⟩,
      ⟨"group", "name", plainOpening.fresh, .positive, 6, 3⟩] ∧
    ∀ key value, stage.reader.get Layout.counters key = .ok (some value) →
      ∃ e, lastAbout consumer.received e.slotName = some e ∧ stage.reader.Tells e key := by
  obtain ⟨engine, s, _, hreachable, hbefore, hfirst, hsecond, hlast⟩ :=
    Stage.exists_afterCalls_of_finds plainOpening rfl (by decide) (by decide)
      [.store "group" "name" 5, .store "group" "other" 2, .store "group" "name" 1]
      (by decide)
      (fun engine s =>
        let committed := (s.node.commit engine s.writer true).2.snapshot
        Index.changes engine.snapshot 0 1 = .ok [] ∧
        Index.changes committed 0 1 =
          .ok [⟨"group", "other", plainOpening.fresh, .positive, 2, 2⟩] ∧
        Index.changes committed 2 1 =
          .ok [⟨"group", "name", plainOpening.fresh, .positive, 6, 3⟩] ∧
        Index.changes committed 3 1 = .ok []) (by decide +kernel)
  have hpolled : Polled (.writing engine s) {} :=
    (Polled.start hreachable).poll (Nat.le_refl 1) hbefore
  have hcommitted := ((hpolled.step (.commit true)).poll (Nat.le_refl 1) hfirst).poll
    (Nat.le_refl 1) hsecond
  exact ⟨_, _, hcommitted, rfl, hcommitted.exact_and_current.2.2 1 (Nat.le_refl 1) hlast⟩

end Consumer

end CounterMesh
