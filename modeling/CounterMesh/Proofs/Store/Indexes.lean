import CounterMesh.Proofs.Store.Runs
import Mathlib.Tactic.TFAE

/-!
# The index trees of a store

What holds of the trees of a store in every state of a run, of those of an open
writer as of the committed ones. The etag indexes are inverse to each other and
cover exactly the slots. The name indexes lead from every id in use to its name
and its group and back, one id for a name. The listings, the tombstones and
their dates agree on which counters are deleted.
-/

namespace CounterMesh

variable {db : Database} {c : Catalog}

/-- The etag indexes are inverse to each other, hold every slot and nothing else, and their etags
are numbers up to the last one. -/
structure EtagIndexes (slots etagToKey keyToEtag : PlainTree) (lastEtag : Etag) : Prop where
  inverse : ∀ key etag, keyToEtag.get? key = some etag ↔ etagToKey.get? etag = some key
  same_keys : ∀ key, keyToEtag.contains key = slots.contains key
  in_range : ∀ key etag, keyToEtag.get? key = some etag →
    ∃ n, etag = Word.big n ∧ 1 ≤ n ∧ n ≤ lastEtag

/-- The trees of the etag indexes are in place and agree with the slots. -/
def Database.EtagsIndexed (db : Database) (lastEtag : Etag) : Prop :=
  ∃ slots etagToKey keyToEtag,
    db.get? Layout.counters = some (.plain slots) ∧
    db.get? Layout.etagToKey = some (.plain etagToKey) ∧
    db.get? Layout.keyToEtag = some (.plain keyToEtag) ∧
    EtagIndexes slots etagToKey keyToEtag lastEtag

theorem etagsIndexed_of_shows (h : db.Shows c.ledger) (hs : c.Sound) :
    db.EtagsIndexed c.lastEtag := by
  obtain ⟨slots, hslots, hvalues⟩ := h.plain .values
  obtain ⟨etagToKey, hetagToKey, hplaces⟩ := h.plain .places
  obtain ⟨keyToEtag, hkeyToEtag, hetags⟩ := h.plain .etags
  refine ⟨slots, etagToKey, keyToEtag, hslots, hetagToKey, hkeyToEtag, ?_⟩
  constructor
  case inverse =>
    intro key etag
    rw [hetags, hplaces]
    constructor
    · rintro ⟨p, n, hp, hn, hpair⟩
      exact ⟨n, p, hn, hp, hpair⟩
    · rintro ⟨n, p, hn, hp, hpair⟩
      exact ⟨p, n, hp, hn, hpair⟩
  case same_keys =>
    intro key
    rw [Bool.eq_iff_iff, OrdMap.contains, OrdMap.contains, Option.isSome_iff_exists,
      Option.isSome_iff_exists]
    constructor
    · rintro ⟨etag, hget⟩
      obtain ⟨p, n, rfl, _, hpair⟩ := (hetags _ _).1 hget
      obtain ⟨value, hvalue⟩ := c.exists_valueAt_iff.2 ⟨n, hpair⟩
      exact ⟨_, hvalues.get?.2 hvalue⟩
    · rintro ⟨value, hget⟩
      obtain ⟨p, v, rfl, _, hpair⟩ := (hvalues _ _).1 hget
      obtain ⟨etag, hetag⟩ := c.exists_valueAt_iff.1 ⟨v, hpair⟩
      exact ⟨_, hetags.get?.2 hetag⟩
  case in_range =>
    intro key etag hget
    obtain ⟨p, n, _, rfl, hpair⟩ := (hetags _ _).1 hget
    refine ⟨n, rfl, ?_, hs.etagAt_le hpair⟩
    obtain ⟨value, hcell⟩ := c.etagAt_eq_some_iff.1 hpair
    have hpos : 0 < n := hs.etag_pos hcell
    rw [UInt64.le_iff_toNat_le]
    rw [UInt64.lt_iff_toNat_lt] at hpos
    exact hpos

/-- In every state of a run, within a writer as between writers, the etag indexes are inverse to
each other, cover exactly the slots, and stay behind the last etag. -/
theorem reachable_etagsIndexed {stage : Stage} (h : stage.Reachable) {lastEtag : Etag}
    (hhas : stage.Has db lastEtag) : db.EtagsIndexed lastEtag := by
  obtain ⟨c, hholds⟩ := h.holds
  obtain ⟨c', hs, hshows, rfl⟩ := hholds.has hhas
  exact etagsIndexed_of_shows hshows hs

/-- The id that repeats one byte. -/
def ServerId.ofByte (byte : UInt8) : ServerId := ⟨List.replicate 16 byte, List.length_replicate⟩

/-- An opening with a fresh id and the settings as they come. -/
def plainOpening : Opening := { fresh := ⟨List.replicate 16 1, rfl⟩ }

theorem etagsIndexed_of_revival : ∃ engine s,
    Stage.afterCalls plainOpening
      [.store "group" "name" 5, .delete "group" "name", .store "group" "name" 2] =
        .ok (.writing engine s) ∧
    s.writer.transaction.trees.EtagsIndexed s.writer.lastEtag := by
  obtain ⟨engine, s, hcalls, hreachable⟩ := Stage.exists_afterCalls plainOpening rfl (by decide)
    (by decide) [.store "group" "name" 5, .delete "group" "name", .store "group" "name" 2]
    (by decide)
  exact ⟨engine, s, hcalls, reachable_etagsIndexed hreachable .writer⟩

/-- An entry is listed under a group, among the live or the deleted counters. -/
def Listed (live deleted : MultiTree) (group entry : Bytes) : Prop :=
  live.holds group entry = true ∨ deleted.holds group entry = true

/-- Every id in use has one name, under which it is listed once, and every listed entry has its
name and a slot; a name has one id in its group. -/
structure NameIndexes (slots names : PlainTree) (live deleted : MultiTree) : Prop where
  named : ∀ key, slots.contains key = true → ∃ id name group, key.take 8 = Word.big id ∧
    names.get? (NameKey.bytes id name) = some group ∧
    (∀ key', names.contains key' = true → Word.big id <+: key' → key' = NameKey.bytes id name) ∧
    live.holds group (GroupEntry.bytes name id) ≠ deleted.holds group (GroupEntry.bytes name id)
  listed : ∀ group entry, Listed live deleted group entry → ∃ id name,
    entry = GroupEntry.bytes name id ∧ names.get? (NameKey.bytes id name) = some group ∧
    ∃ key, slots.contains key = true ∧ Word.big id <+: key
  known : ∀ key group, names.get? key = some group → ∃ id name,
    key = NameKey.bytes id name ∧ Listed live deleted group (GroupEntry.bytes name id)
  one_id : ∀ group name id id', Listed live deleted group (GroupEntry.bytes name id) →
    Listed live deleted group (GroupEntry.bytes name id') → id = id'

namespace GroupEntry

theorem bytes_inj {name name' : Bytes} {id id' : CounterId} (h : bytes name id = bytes name' id') :
    name = name' ∧ id = id' := by
  have hsplit := congrArg (split "") h
  simpa using hsplit

end GroupEntry

section Names

variable {slots names : PlainTree} {live deleted : MultiTree}

/-- The entries of the group indexes are the listed counters of the catalog. -/
theorem listed_iff
    (hlive : live.Presents Code.text Code.groupEntry (c.ledger.multi .live))
    (hdeleted : deleted.Presents Code.text Code.groupEntry (c.ledger.multi .deleted))
    (group entry : Bytes) :
    Listed live deleted group entry ↔ ∃ g n id, Bytes.ofText g = group ∧
      GroupEntry.bytes (Bytes.ofText n) id = entry ∧ c.ids g n = some id := by
  rw [Listed, hlive.holds_iff, hdeleted.holds_iff]
  constructor
  · rintro (⟨g, ⟨n, id⟩, hg, he, hid, _⟩ | ⟨g, ⟨n, id⟩, hg, he, hid, _⟩)
    · exact ⟨g, n, id, hg, he, hid⟩
    · exact ⟨g, n, id, hg, he, hid⟩
  · rintro ⟨g, n, id, hg, he, hid⟩
    by_cases hd : c.Deleted id
    · exact .inr ⟨g, (n, id), hg, he, hid, hd⟩
    · exact .inl ⟨g, (n, id), hg, he, hid, hd⟩

theorem nameIndexes_of_presents (hs : c.Sound)
    (hvalues : slots.Presents Code.place Code.value (c.ledger.plain .values))
    (hnames : names.Presents Code.nameKey Code.text (c.ledger.plain .names))
    (hlive : live.Presents Code.text Code.groupEntry (c.ledger.multi .live))
    (hdeleted : deleted.Presents Code.text Code.groupEntry (c.ledger.multi .deleted)) :
    NameIndexes slots names live deleted := by
  have hslot : ∀ key, slots.contains key = true ↔ ∃ p cell, Place.bytes p = key ∧
      c.cells p = some cell := by
    intro key
    rw [OrdMap.contains, Option.isSome_iff_exists]
    constructor
    · rintro ⟨value, hget⟩
      obtain ⟨p, v, hp, _, hpair⟩ := (hvalues _ _).1 hget
      obtain ⟨cell, hcell, _⟩ := Option.map_eq_some_iff.1 hpair
      exact ⟨p, cell, hp, hcell⟩
    · rintro ⟨p, cell, rfl, hcell⟩
      exact ⟨_, hvalues.get?.2 (Option.map_eq_some_iff.2 ⟨cell, hcell, rfl⟩)⟩
  constructor
  case named =>
    intro key hkey
    obtain ⟨p, cell, rfl, hcell⟩ := (hslot key).1 hkey
    obtain ⟨g, n, hid⟩ := hs.id_of_slot hcell
    refine ⟨p.counterId, Bytes.ofText n, Bytes.ofText g, ?_, ?_, ?_, ?_⟩
    · rw [Place.bytes_eq, List.take_left' (Word.length_big _)]
    · exact (hnames.get? (x := (p.counterId, n)) (y := g)).2 hid
    · intro key' hkey' hstem
      obtain ⟨group', hget⟩ := Option.isSome_iff_exists.1 hkey'
      obtain ⟨⟨id', n'⟩, g', rfl, _, hid'⟩ := (hnames _ _).1 hget
      have hsame : id' = p.counterId := (NameKey.prefix_bytes_iff _ _ _).1 hstem
      have hname := hs.id_unique (hsame ▸ hid' : c.ids g' n' = some p.counterId) hid
      rw [hsame, hname.2]
      rfl
    · rw [ne_eq, Bool.eq_iff_iff]
      have hl : live.holds (Bytes.ofText g) (GroupEntry.bytes (Bytes.ofText n) p.counterId) =
          true ↔ _ := hlive.holds (x := g) (y := (n, p.counterId))
      have hd : deleted.holds (Bytes.ofText g) (GroupEntry.bytes (Bytes.ofText n) p.counterId) =
          true ↔ _ := hdeleted.holds (x := g) (y := (n, p.counterId))
      rw [hl, hd, Catalog.multi_ledger_live, Catalog.multi_ledger_deleted]
      tauto
  case listed =>
    intro group entry hentry
    obtain ⟨g, n, id, rfl, rfl, hid⟩ := (listed_iff hlive hdeleted _ _).1 hentry
    obtain ⟨p, cell, rfl, hcell⟩ := hs.slot_of_id hid
    refine ⟨p.counterId, Bytes.ofText n, rfl,
      (hnames.get? (x := (p.counterId, n)) (y := g)).2 hid, p.bytes,
      (hslot _).2 ⟨p, cell, rfl, hcell⟩, ?_⟩
    exact (Place.prefix_bytes_iff _ _).2 rfl
  case known =>
    intro key group hget
    obtain ⟨⟨id, n⟩, g, rfl, rfl, hid⟩ := (hnames _ _).1 hget
    exact ⟨id, Bytes.ofText n, rfl, (listed_iff hlive hdeleted _ _).2 ⟨g, n, id, rfl, rfl, hid⟩⟩
  case one_id =>
    intro group name id id' hid hid'
    obtain ⟨g, n, i, rfl, hentry, hfound⟩ := (listed_iff hlive hdeleted _ _).1 hid
    obtain ⟨g', n', i', hg, hentry', hfound'⟩ := (listed_iff hlive hdeleted _ _).1 hid'
    obtain ⟨rfl, rfl⟩ := GroupEntry.bytes_inj hentry
    obtain ⟨hn, rfl⟩ := GroupEntry.bytes_inj hentry'
    rw [Bytes.ofText_injective hg, Bytes.ofText_injective hn, hfound] at hfound'
    exact Option.some.inj hfound'

end Names

namespace Stage

/-- A run that drops no writer and in which no purge removes the counter. -/
inductive Retains (group name : String) : Stage → Stage → Prop where
  | refl (stage : Stage) : Retains group name stage stage
  | step {stage stage' stage'' : Stage} {event : Event} (h : Retains group name stage stage')
      (hstep : Step stage' event stage'') (hdrop : event ≠ .drop)
      (hpurge : event = .call .purge →
        ∃ id, Index.anyId? stage''.transaction group name = .ok (some id)) :
      Retains group name stage stage''

theorem Step.anyId?_eq {stage stage' : Stage} {event : Event} (hstep : Step stage event stage')
    {c : Catalog} (h : stage.Holds c) {group name : String} {id : CounterId}
    (hid : c.ids group name = some id) (hdrop : event ≠ .drop)
    (hpurge : event = .call .purge →
      ∃ id, Index.anyId? stage'.transaction group name = .ok (some id)) :
    ∃ c', stage'.Holds c' ∧ c'.ids group name = some id := by
  obtain ⟨c', h', hevolves⟩ := hstep.holds h
  refine ⟨c', h', ?_⟩
  by_cases hcall : event = .call .purge
  · obtain ⟨id', hfound⟩ := hpurge hcall
    rw [Catalog.index_anyId? h'.transaction_shows, Except.ok.injEq] at hfound
    have hwrites : event.writes = 0 := by rw [hcall]; rfl
    have hzero := hevolves hdrop
    rw [hwrites] at hzero
    rcases hzero.ids_eq_or_none hid with heq | hnone
    · exact heq
    · rw [hnone] at hfound
      cases hfound
  · exact (hevolves hdrop).ids_eq hcall hid

/-- Until a purge removes it, a counter keeps its id. -/
theorem Retains.ids_eq {stage stage' : Stage} {group name : String}
    (h : Retains group name stage stage') {c : Catalog} (hholds : stage.Holds c)
    {id : CounterId} (hid : c.ids group name = some id) :
    ∃ c', stage'.Holds c' ∧ c'.ids group name = some id := by
  induction h with
  | refl => exact ⟨c, hholds, hid⟩
  | step h hstep hdrop hpurge ih =>
      obtain ⟨c₁, hholds₁, hid₁⟩ := ih
      exact hstep.anyId?_eq hholds₁ hid₁ hdrop hpurge

end Stage

/-- The trees of the name indexes are in place and agree with the slots. -/
def Database.NamesIndexed (db : Database) : Prop :=
  ∃ slots names live deleted,
    db.get? Layout.counters = some (.plain slots) ∧
    db.get? Layout.counterNames = some (.plain names) ∧
    db.get? Layout.groupCounters = some (.multi live) ∧
    db.get? Layout.tombstonedGroupCounters = some (.multi deleted) ∧
    NameIndexes slots names live deleted

/-- In every state of a run the name indexes lead from ids to names and back, and along a run the
id of a counter stays the same until a purge removes it. -/
theorem reachable_namesIndexed {stage : Stage} (h : stage.Reachable) :
    (∀ db lastEtag, stage.Has db lastEtag → db.NamesIndexed) ∧
    ∀ group name stage' id, Stage.Retains group name stage stage' →
      Index.anyId? stage.transaction group name = .ok (some id) →
      Index.anyId? stage'.transaction group name = .ok (some id) := by
  obtain ⟨c, hholds⟩ := h.holds
  constructor
  · intro db lastEtag hhas
    obtain ⟨c', hs, hshows, _⟩ := hholds.has hhas
    obtain ⟨slots, hslots, hvalues⟩ := hshows.plain .values
    obtain ⟨names, hnames, hgroups⟩ := hshows.plain .names
    obtain ⟨live, hlive, hliving⟩ := hshows.multi .live
    obtain ⟨deleted, hdeleted, hdead⟩ := hshows.multi .deleted
    exact ⟨slots, names, live, deleted, hslots, hnames, hlive, hdeleted,
      nameIndexes_of_presents hs hvalues hgroups hliving hdead⟩
  · intro group name stage' id hretains hid
    rw [Catalog.index_anyId? hholds.transaction_shows, Except.ok.injEq] at hid
    obtain ⟨c', hholds', hid'⟩ := hretains.ids_eq hholds hid
    rw [Catalog.index_anyId? hholds'.transaction_shows, hid']

theorem namesIndexed_of_deletion : ∃ engine s,
    Stage.afterCalls plainOpening [.store "group" "name" 5] = .ok (.writing engine s) ∧
    s.writer.transaction.trees.NamesIndexed ∧
    Index.anyId? (Stage.writing engine s).transaction "group" "name" = .ok (some 1) ∧
    Index.anyId? (Stage.writing engine ((Call.delete "group" "name").finish s)).transaction
      "group" "name" = .ok (some 1) := by
  obtain ⟨engine, s, hcalls, hreachable, hetag, hcounterId, hid⟩ :=
    Stage.exists_afterCalls_of_finds plainOpening rfl (by decide) (by decide)
      [.store "group" "name" 5] (by decide)
      (fun engine s => s.writer.lastEtag = 1 ∧ s.writer.lastCounterId = 1 ∧
        Index.anyId? (Stage.writing engine s).transaction "group" "name" = .ok (some 1))
      (by decide +kernel)
  have hdelete : Stage.Step (.writing engine s) (.call (.delete "group" "name"))
      (.writing engine ((Call.delete "group" "name").finish s)) := by
    refine .call _ ?_ ?_
    · rw [hetag]
      decide
    · rw [hcounterId]
      decide
  obtain ⟨hindexed, hstays⟩ := reachable_namesIndexed hreachable
  have hretains : Stage.Retains "group" "name" (.writing engine s)
      (.writing engine ((Call.delete "group" "name").finish s)) :=
    .step (.refl _) hdelete nofun nofun
  exact ⟨engine, s, hcalls, hindexed _ _ .writer, hid, hstays _ _ _ 1 hretains hid⟩

/-- Whether a counter is listed in a group index, under whatever group and name. -/
def HasEntry (tree : MultiTree) (id : CounterId) : Prop :=
  ∃ group name, tree.holds group (GroupEntry.bytes name id) = true

/-- The listings, the tombstones and their dates agree on the deleted counters, nothing else has a
date, the reserved id has no other slots, and a tombstone is the newest slot of its counter. -/
structure TombstoneIndexes (slots keyToEtag : PlainTree) (live deleted dates : MultiTree) :
    Prop where
  deleted_tfae : ∀ id, [
    HasEntry deleted id ∧ ¬ HasEntry live id,
    slots.contains (SlotKey.tombstone id).bytes = true,
    ∃ ticks, slots.get? (SlotKey.tombstone id).bytes = some (Word.little ticks) ∧
      ∀ date, dates.holds date (SlotKey.tombstone id).bytes = true ↔ date = Word.ordered ticks].TFAE
  dated : ∀ date key, dates.holds date key = true → ∃ id ticks,
    key = (SlotKey.tombstone id).bytes ∧ date = Word.ordered ticks ∧
      slots.get? key = some (Word.little ticks)
  not_negative : ∀ id, slots.contains (SlotKey.bytes ⟨id, .tombstone, .negative⟩) = false
  newest : ∀ id key etag etag', Word.big id <+: key → key ≠ (SlotKey.tombstone id).bytes →
    keyToEtag.get? (SlotKey.tombstone id).bytes = some (Word.big etag) →
    keyToEtag.get? key = some (Word.big etag') → etag' < etag

section Tombstones

variable {slots keyToEtag : PlainTree} {live deleted dates : MultiTree}

theorem tombstoneIndexes_of_presents (hs : c.Sound)
    (hvalues : slots.Presents Code.place Code.value (c.ledger.plain .values))
    (hetags : keyToEtag.Presents Code.place Code.word (c.ledger.plain .etags))
    (hlive : live.Presents Code.text Code.groupEntry (c.ledger.multi .live))
    (hdeleted : deleted.Presents Code.text Code.groupEntry (c.ledger.multi .deleted))
    (hdates : dates.Presents Code.date Code.place (c.ledger.multi .dates)) :
    TombstoneIndexes slots keyToEtag live deleted dates := by
  have hvalue : ∀ p value, slots.get? (Place.bytes p) = some (Word.little value) ↔
      c.valueAt p = some value := fun p value => hvalues.get?
  have hetag : ∀ p etag, keyToEtag.get? (Place.bytes p) = some (Word.big etag) ↔
      c.etagAt p = some etag := fun p etag => hetags.get?
  constructor
  case deleted_tfae =>
    intro id
    rw [Place.bytes_tombstone]
    tfae_have 1 → 2 := by
      rintro ⟨⟨group, name, hentry⟩, _⟩
      obtain ⟨g, ⟨n, i⟩, _, hbytes, _, hd⟩ := (hdeleted.holds_iff _ _).1 hentry
      obtain ⟨_, rfl⟩ := GroupEntry.bytes_inj hbytes
      obtain ⟨ticks, hticks⟩ := c.deleted_iff_valueAt.1 hd
      exact Option.isSome_iff_exists.2 ⟨_, (hvalue _ ticks).2 hticks⟩
    tfae_have 2 → 3 := by
      intro hslot
      obtain ⟨value, hget⟩ := Option.isSome_iff_exists.1 hslot
      obtain ⟨p, ticks, hp, rfl, _⟩ := (hvalues _ _).1 hget
      refine ⟨ticks, hget, fun date => ?_⟩
      have hticks := (hvalue _ ticks).1 hget
      rw [hdates.holds_iff]
      constructor
      · rintro ⟨ticks', q, rfl, hq, _, hticks'⟩
        rw [Place.bytes_injective hq, hticks] at hticks'
        rw [Option.some.inj hticks']
        rfl
      · rintro rfl
        exact ⟨ticks, .tombstone id, rfl, rfl, rfl, hticks⟩
    tfae_have 3 → 1 := by
      rintro ⟨ticks, hget, _⟩
      have hd : c.Deleted id := c.deleted_iff_valueAt.2 ⟨ticks, (hvalue _ ticks).1 hget⟩
      obtain ⟨etag, hcell⟩ := c.deleted_iff_etagAt.1 hd
      obtain ⟨value, hcell⟩ := c.etagAt_eq_some_iff.1 hcell
      obtain ⟨g, n, hid⟩ := hs.id_of_slot hcell
      refine ⟨⟨Bytes.ofText g, Bytes.ofText n, ?_⟩, ?_⟩
      · exact (hdeleted.holds (x := g) (y := (n, id))).2 ⟨hid, hd⟩
      · rintro ⟨group, name, hentry⟩
        obtain ⟨g', ⟨n', i⟩, _, hbytes, _, hnot⟩ := (hlive.holds_iff _ _).1 hentry
        obtain ⟨_, rfl⟩ := GroupEntry.bytes_inj hbytes
        exact hnot hd
    tfae_finish
  case dated =>
    intro date key hdate
    obtain ⟨ticks, p, rfl, rfl, hp, hticks⟩ := (hdates.holds_iff _ _).1 hdate
    refine ⟨p.counterId, ticks, ?_, rfl, (hvalue p ticks).2 hticks⟩
    rw [Place.bytes_tombstone, ← hp]
    rfl
  case not_negative =>
    intro id
    rw [Bool.eq_false_iff]
    intro hslot
    obtain ⟨value, hget⟩ := Option.isSome_iff_exists.1 hslot
    obtain ⟨p, v, hp, _, hpair⟩ := (hvalues _ _).1 hget
    rw [Place.bytes_slotKey] at hp
    have hp' := Place.bytes_injective hp
    obtain ⟨cell, hcell, _⟩ := Option.map_eq_some_iff.1 hpair
    have hreserved := hs.reserved hcell (by rw [hp']; rfl)
    rw [hp'] at hreserved
    cases hreserved
  case newest =>
    intro id key etag etag' hstem hne hget hget'
    obtain ⟨p, e, rfl, he, hpair⟩ := (hetags _ _).1 hget'
    obtain rfl : p.counterId = id := (Place.prefix_bytes_iff _ _).1 hstem
    rw [Place.bytes_tombstone] at hget hne
    obtain ⟨value, hcell⟩ := c.etagAt_eq_some_iff.1 ((hetag _ _).1 hget)
    obtain ⟨value', hcell'⟩ := c.etagAt_eq_some_iff.1 ((hetag _ _).1 hget')
    refine hs.tombstone_newest hcell' hcell ?_
    intro hp
    exact hne (congrArg Place.bytes hp)

end Tombstones

/-- The trees of the tombstones and the listings are in place and agree. -/
def Database.TombstonesIndexed (db : Database) : Prop :=
  ∃ slots keyToEtag live deleted dates,
    db.get? Layout.counters = some (.plain slots) ∧
    db.get? Layout.keyToEtag = some (.plain keyToEtag) ∧
    db.get? Layout.groupCounters = some (.multi live) ∧
    db.get? Layout.tombstonedGroupCounters = some (.multi deleted) ∧
    db.get? Layout.tombstonesByDate = some (.multi dates) ∧
    TombstoneIndexes slots keyToEtag live deleted dates

/-- In every state of a run the listings, the tombstones and their dates agree on which counters
are deleted, whatever times of deletion were written. -/
theorem reachable_tombstonesIndexed {stage : Stage} (h : stage.Reachable) {lastEtag : Etag}
    (hhas : stage.Has db lastEtag) : db.TombstonesIndexed := by
  obtain ⟨c, hholds⟩ := h.holds
  obtain ⟨c', hs, hshows, _⟩ := hholds.has hhas
  obtain ⟨slots, hslots, hvalues⟩ := hshows.plain .values
  obtain ⟨keyToEtag, hkeyToEtag, hetags⟩ := hshows.plain .etags
  obtain ⟨live, hlive, hliving⟩ := hshows.multi .live
  obtain ⟨deleted, hdeleted, hdead⟩ := hshows.multi .deleted
  obtain ⟨dates, hdates, hdated⟩ := hshows.multi .dates
  exact ⟨slots, keyToEtag, live, deleted, dates, hslots, hkeyToEtag, hlive, hdeleted, hdates,
    tombstoneIndexes_of_presents hs hvalues hetags hliving hdead hdated⟩

theorem tombstonesIndexed_of_rewritten_tombstone : ∃ engine s,
    Stage.afterCalls plainOpening
      [.store "group" "name" 5, .storeReplicated "group" "name" .nil .negative (-7),
        .storeReplicated "group" "name" .nil .positive (-9)] = .ok (.writing engine s) ∧
    s.writer.transaction.trees.TombstonesIndexed := by
  obtain ⟨engine, s, hcalls, hreachable⟩ := Stage.exists_afterCalls plainOpening rfl (by decide)
    (by decide) [.store "group" "name" 5, .storeReplicated "group" "name" .nil .negative (-7),
      .storeReplicated "group" "name" .nil .positive (-9)] (by decide)
  exact ⟨engine, s, hcalls, reachable_tombstonesIndexed hreachable .writer⟩

end CounterMesh
