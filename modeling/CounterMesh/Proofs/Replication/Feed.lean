import CounterMesh.Proofs.OrdMap.Relisted
import CounterMesh.Proofs.Store.Slots
import Mathlib.Data.List.Nodup

/-!
# The change feed of a catalog

The feed lists every slot once, by the etag of its last write, with the name of
its counter and its current value. A peer asks for a part of it: what comes
after an etag, up to a number of entries.
-/

namespace CounterMesh

namespace FeedEntry

/-- The slot that an entry tells about. -/
def slotName (e : FeedEntry) : SlotName := ⟨e.group, e.name, e.serverId, e.sign⟩

/-- What the slot holds at the sender. -/
def cell (e : FeedEntry) : Cell := ⟨e.value, e.etag⟩

/-- The entry about a slot with this in it. -/
def about (k : SlotName) (cell : Cell) : FeedEntry :=
  ⟨k.group, k.name, k.serverId, k.sign, cell.value, cell.etag⟩

@[simp] theorem slotName_about (k : SlotName) (cell : Cell) : (about k cell).slotName = k := rfl

@[simp] theorem cell_about (k : SlotName) (cell : Cell) : (about k cell).cell = cell := rfl

theorem ext_iff_slot {e e' : FeedEntry} :
    e = e' ↔ e.slotName = e'.slotName ∧ e.cell = e'.cell := by
  cases e
  cases e'
  simp only [slotName, cell, SlotName.mk.injEq, Cell.mk.injEq, mk.injEq]
  tauto

end FeedEntry

/-- The last of the entries about a slot. -/
def lastAbout (entries : List FeedEntry) (k : SlotName) : Option FeedEntry :=
  entries.reverse.find? fun e => e.slotName = k

section LastAbout

variable {entries : List FeedEntry} {k : SlotName} {e : FeedEntry}

theorem lastAbout_append (front rest : List FeedEntry) (k : SlotName) :
    lastAbout (front ++ rest) k = (lastAbout rest k).or (lastAbout front k) := by
  rw [lastAbout, List.reverse_append, List.find?_append, lastAbout, lastAbout]

theorem lastAbout_cons_entry (e : FeedEntry) (rest : List FeedEntry) (k : SlotName) :
    lastAbout (e :: rest) k = (lastAbout rest k).or (if e.slotName = k then some e else none) := by
  have hone : lastAbout [e] k = if e.slotName = k then some e else none := by
    by_cases hk : e.slotName = k <;> simp [lastAbout, hk]
  rw [← hone, ← lastAbout_append, List.singleton_append]

theorem mem_of_lastAbout (h : lastAbout entries k = some e) : e ∈ entries ∧ e.slotName = k :=
  ⟨List.mem_reverse.1 (List.mem_of_find?_eq_some h), by simpa using List.find?_some h⟩

theorem lastAbout_eq_none_iff : lastAbout entries k = none ↔ ∀ e ∈ entries, e.slotName ≠ k := by
  simp [lastAbout]

end LastAbout

/-- The feed lists exactly the slots of the catalog, in the order of their etags. -/
structure Catalog.Feed (c : Catalog) (feed : List FeedEntry) : Prop where
  sorted : feed.Pairwise fun e e' => e.etag < e'.etag
  mem_iff : ∀ e, e ∈ feed ↔ c.slot e.slotName = some e.cell

theorem Catalog.Feed.mem_about_iff {c : Catalog} {feed : List FeedEntry} (h : c.Feed feed)
    {k : SlotName} {cell : Cell} : .about k cell ∈ feed ↔ c.slot k = some cell :=
  h.mem_iff _

/-- The entries behind an etag. -/
def feedAfter (feed : List FeedEntry) (since : Etag) : List FeedEntry :=
  feed.filter fun e => since < e.etag

/-- A catalog has one feed. -/
theorem Catalog.Feed.unique {c : Catalog} {feed feed' : List FeedEntry} (h : c.Feed feed)
    (h' : c.Feed feed') : feed = feed' := by
  have : Std.Irrefl fun e e' : FeedEntry => e.etag < e'.etag := ⟨fun e => UInt64.lt_irrefl e.etag⟩
  have : Std.Antisymm fun e e' : FeedEntry => e.etag < e'.etag :=
    ⟨fun e e' hlt hlt' => absurd hlt' (UInt64.lt_asymm hlt)⟩
  refine List.Pairwise.eq_of_mem_iff h.sorted h'.sorted fun e => ?_
  rw [h.mem_iff, h'.mem_iff]

/-- The feed tells about every slot once. -/
theorem Catalog.Feed.unique_slots {c : Catalog} {feed : List FeedEntry} (h : c.Feed feed) :
    (feed.map FeedEntry.slotName).Nodup := by
  have hnodup : feed.Nodup := by
    refine h.sorted.imp ?_
    rintro e _ hlt rfl
    exact UInt64.lt_irrefl _ hlt
  refine hnodup.map_on fun e he e' he' hslot => FeedEntry.ext_iff_slot.2 ⟨hslot, ?_⟩
  have hcell := (h.mem_iff e).1 he
  rw [hslot, (h.mem_iff e').1 he', Option.some.injEq] at hcell
  exact hcell.symm

/-- As many etags as stand behind a first one in order are left between it and the greatest word. -/
private theorem length_lt_of_sorted {entries : List FeedEntry} {since : Etag}
    (hsorted : entries.Pairwise fun e e' => e.etag < e'.etag)
    (hbehind : ∀ e ∈ entries, since < e.etag) : since.toNat + entries.length < UInt64.size := by
  induction entries generalizing since with
  | nil => exact since.toNat_lt
  | cons e rest ih =>
      rw [List.pairwise_cons] at hsorted
      have hrest := ih hsorted.2 hsorted.1
      have he := UInt64.lt_iff_toNat_lt.1 (hbehind e List.mem_cons_self)
      rw [List.length_cons]
      omega

/-- Etags are positive words, so that a feed is never longer than the sequences. -/
theorem Catalog.Feed.length_lt {c : Catalog} {feed : List FeedEntry} (h : c.Feed feed)
    (hs : c.Sound) : feed.length < UInt64.size := by
  have hpos : ∀ e ∈ feed, 0 < e.etag := fun e he => hs.slot_etag_pos ((h.mem_iff e).1 he)
  have hlt := length_lt_of_sorted h.sorted hpos
  rwa [UInt64.toNat_zero, Nat.zero_add] at hlt

namespace Transaction

variable {t : Transaction} {L : Ledger}

/-- The etag index in order, from the first etag or behind another one. -/
theorem etags_of_shows (h : t.trees.Shows L) :
    ∃ rows : List (Etag × Place), rows.Pairwise (fun row row' => row.1 < row'.1) ∧
      (∀ etag p, (etag, p) ∈ rows ↔ L.plain .places etag p) ∧
      t.entryCount Layout.etagToKey = .ok rows.length ∧
      ∀ since, Index.etagsAfter t since = .ok ((rows.filter fun row => since < row.1).map
        fun row => (Word.big row.1, row.2.bytes)) := by
  obtain ⟨rows, hsorted, hmem, hcount, hscan⟩ := scanFrom_of_shows h .places
  have hfrom : ∀ first : Etag, t.scanFrom Layout.etagToKey (Word.big first) =
      .ok ((rows.filter fun row => !(compare (Word.big row.1) (Word.big first) == .lt)).map
        fun row => (Word.big row.1, row.2.bytes)) := fun first => hscan (Word.big first)
  refine ⟨rows, hsorted.imp fun hlt => (Word.compare_big_lt_iff _ _).1 hlt, hmem, hcount,
    fun since => ?_⟩
  by_cases hlast : since.toNat + 1 < UInt64.size
  · obtain ⟨first, hword, hfirst⟩ : ∃ first, Word.ofNat? (since.toNat + 1) = some first ∧
        ∀ etag : Etag, ¬ etag < first ↔ since < etag := by
      refine ⟨UInt64.ofNat (since.toNat + 1), if_pos hlast, fun etag => ?_⟩
      rw [UInt64.lt_iff_toNat_lt, UInt64.lt_iff_toNat_lt, UInt64.toNat_ofNat_of_lt' hlast]
      omega
    have hkept : (rows.filter fun row => !(compare (Word.big row.1) (Word.big first) == .lt)) =
        rows.filter fun row => since < row.1 := by
      refine List.filter_congr fun row _ => ?_
      rw [Bool.eq_iff_iff, Bool.not_eq_true', beq_eq_false_iff_ne, ne_eq,
        Word.compare_big_lt_iff, hfirst, decide_eq_true_iff]
    rw [Index.etagsAfter, hword, ← hkept]
    exact hfrom first
  · have hword : Word.ofNat? (since.toNat + 1) = none := if_neg hlast
    -- No etag is greater than the greatest word.
    have hnone : (rows.filter fun row => since < row.1) = [] := by
      refine List.filter_eq_nil_iff.2 fun row _ => ?_
      have hrow := row.1.toNat_lt
      rw [decide_eq_true_iff, UInt64.lt_iff_toNat_lt]
      simp only [UInt64.size] at hlast
      omega
    rw [Index.etagsAfter, hword, hnone]
    rfl

end Transaction

namespace Catalog

variable {c : Catalog} {t : Transaction}

/-- The name and the group of a counter are found by its id. -/
theorem index_nameOf? (h : t.trees.Shows c.ledger) (hs : c.Sound) {group name : String}
    {id : CounterId} (hid : c.ids group name = some id) :
    Index.nameOf? t id = .ok (some (name, group)) := by
  obtain ⟨rows, hscan, hmem⟩ := Transaction.scanStarting_of_shows h .names (Word.big id)
  have hscan' : t.scanStarting Layout.counterNames (Word.big id) = .ok (rows.map fun row =>
      (NameKey.bytes row.1.1 (Bytes.ofText row.1.2), Bytes.ofText row.2)) := hscan
  rw [Index.nameOf?, hscan']
  cases rows with
  | nil =>
      have hrow := (hmem (id, name) group).2 ⟨hid, (NameKey.prefix_bytes_iff _ _ _).2 rfl⟩
      cases hrow
  | cons row rest =>
      obtain ⟨⟨id', n⟩, g⟩ := row
      obtain ⟨hrow, hstem⟩ := (hmem (id', n) g).1 List.mem_cons_self
      have hsame : id' = id := (NameKey.prefix_bytes_iff _ _ _).1 hstem
      have hid' : c.ids g n = some id := hsame ▸ hrow
      obtain ⟨rfl, rfl⟩ := hs.id_unique hid hid'
      simp only [List.map_cons, bind, Except.bind, NameKey.split_bytes, Stored.text_ofText]
      rfl

/-- An etag in the index is read as the entry of its slot. -/
theorem index_feedEntry (h : t.trees.Shows c.ledger) (hs : c.Sound) {p : Place} {etag : Etag}
    (hp : c.etagAt p = some etag) :
    ∃ e, Index.feedEntry t (Word.big etag) p.bytes = .ok e ∧ e.etag = etag ∧
      c.slot e.slotName = some e.cell := by
  obtain ⟨value, hcell⟩ := c.etagAt_eq_some_iff.1 hp
  obtain ⟨group, name, hid, hslot⟩ := hs.exists_slot hcell
  refine ⟨⟨group, name, p.serverId, p.sign, value, etag⟩, ?_, rfl, hslot⟩
  have hvalue : c.valueAt p = some value := by rw [valueAt, hcell]; rfl
  have hname : Index.nameOf? t p.slot.counterId = .ok (some (name, group)) :=
    index_nameOf? h hs hid
  have hserver : p.slot.owner.server = p.serverId := p.slot_owner_server
  rw [Index.feedEntry]
  simp only [Stored.word_big, Place.decode_bytes, index_slotValue? h, hvalue, bind, Except.bind,
    pure, Except.pure, hname, hserver]
  rfl

/-- A store answers every question about its changes from the feed of its catalog. -/
theorem exists_feed (h : t.trees.Shows c.ledger) (hs : c.Sound) :
    ∃ feed, c.Feed feed ∧ t.entryCount Layout.etagToKey = .ok feed.length ∧
      (∀ since, Index.feed t since = .ok ((feedAfter feed since).map .ok)) ∧
      ∀ since max, Index.changes t since max = .ok ((feedAfter feed since).take max) := by
  obtain ⟨rows, hsorted, hmem, hcount, hafter⟩ := Transaction.etags_of_shows h
  have hplace : ∀ row ∈ rows, c.etagAt row.2 = some row.1 := fun row hrow =>
    (hmem row.1 row.2).1 hrow
  have hnonempty : Nonempty FeedEntry := ⟨⟨"", "", .nil, .positive, 0, 0⟩⟩
  have hread : ∀ row ∈ rows, ∃ e, Index.feedEntry t (Word.big row.1) row.2.bytes = .ok e ∧
      e.etag = row.1 ∧ c.slot e.slotName = some e.cell :=
    fun row hrow => index_feedEntry h hs (hplace row hrow)
  choose! entry hentry hetag hslot using hread
  have hfilter : ∀ since, feedAfter (rows.map entry) since =
      (rows.filter fun row => since < row.1).map entry := by
    intro since
    rw [feedAfter, List.filter_map]
    congr 1
    refine List.filter_congr fun row hrow => ?_
    rw [Function.comp_apply, hetag row hrow]
  have hrows : ∀ {since : Etag} {row : Etag × Place},
      row ∈ (rows.filter fun row => since < row.1) → row ∈ rows :=
    fun hrow => (List.mem_filter.1 hrow).1
  refine ⟨rows.map entry, ⟨?_, fun e => ?_⟩, ?_, fun since => ?_, fun since max => ?_⟩
  · rw [List.pairwise_map]
    refine hsorted.imp_of_mem fun hrow hrow' hlt => ?_
    rwa [hetag _ hrow, hetag _ hrow']
  · constructor
    · intro he
      obtain ⟨row, hrow, rfl⟩ := List.mem_map.1 he
      exact hslot row hrow
    · intro he
      obtain ⟨id, _, hcell⟩ := slot_eq_some_iff.1 he
      have hrow : (e.etag, ⟨id, e.serverId, e.sign⟩) ∈ rows :=
        (hmem _ _).2 (c.etagAt_eq_some_iff.2 ⟨e.value, hcell⟩)
      refine List.mem_map.2 ⟨_, hrow, ?_⟩
      exact FeedEntry.ext_iff_slot.2 (hs.slot_unique (hslot _ hrow) he (hetag _ hrow))
  · rw [hcount, List.length_map]
  · rw [Index.feed, hafter, hfilter, List.map_map]
    refine congrArg Except.ok ?_
    rw [List.map_map]
    exact List.map_congr_left fun row hrow => hentry row (hrows hrow)
  · rw [Index.changes, hafter, hfilter]
    simp only [bind, Except.bind]
    rw [← List.map_take, ← List.map_take, List.mapM_map]
    exact mapM_eq_pure fun row hrow => hentry row (hrows (List.mem_of_mem_take hrow))

theorem Feed.changes {feed : List FeedEntry} (hfeed : c.Feed feed) (h : t.trees.Shows c.ledger)
    (hs : c.Sound) (since : Etag) (max : Nat) :
    Index.changes t since max = .ok ((feedAfter feed since).take max) := by
  obtain ⟨feed', hfeed', _, _, hchanges⟩ := exists_feed h hs
  rw [hfeed.unique hfeed']
  exact hchanges since max

theorem Feed.changes_length {feed : List FeedEntry} (hfeed : c.Feed feed)
    (h : t.trees.Shows c.ledger) (hs : c.Sound) (since : Etag) :
    Index.changes t since feed.length = .ok (feedAfter feed since) := by
  have hle : (feedAfter feed since).length ≤ feed.length := List.length_filter_le _ _
  rw [hfeed.changes h hs, List.take_of_length_le hle]

/-- Every etag is behind the cursor of a new peer. -/
theorem Feed.after_zero {feed : List FeedEntry} (hfeed : c.Feed feed) (hs : c.Sound) :
    feedAfter feed 0 = feed :=
  List.filter_eq_self.2 fun e he => decide_eq_true (hs.slot_etag_pos ((hfeed.mem_iff e).1 he))

end Catalog

end CounterMesh
