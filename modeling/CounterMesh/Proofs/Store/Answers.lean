import CounterMesh.Proofs.Replication.Apply
import CounterMesh.Proofs.Replication.Document
import CounterMesh.Proofs.Replication.Feed
import CounterMesh.Proofs.Store.Listing
import CounterMesh.Proofs.Store.Stages

/-!
# Answers

Every look-up walks from one tree to the next: from a name to an id, from an etag
to a slot, from a slot to its value and back to its name. In the trees of a sound
catalog no step of these ways is missing and no entry is damaged, so that a reader
is always answered. Only a counter that is not there is reported as missing.
-/

namespace CounterMesh

/-- Every question that a reader may ask is answered. A total is refused exactly for a counter that
is not live, and the slots are refused exactly for a counter that is neither live nor deleted. -/
structure Transaction.Answers (t : Transaction) : Prop where
  total : ∀ group name,
    (∃ id total, Index.liveId? t group name = .ok (some id) ∧
      Index.totalOf t group name = .ok total) ∨
    (Index.liveId? t group name = .ok none ∧
      Index.totalOf t group name = .error (.counter (.notFound group name)))
  slots : ∀ group name,
    (∃ id slots, Index.anyId? t group name = .ok (some id) ∧
      Index.slotsOf t group name = .ok slots) ∨
    (Index.anyId? t group name = .ok none ∧
      Index.slotsOf t group name = .error (.counter (.notFound group name)))
  value : ∀ group name owner sign, ∃ value?, Index.valueOf? t group name owner sign = .ok value?
  etag : ∀ group name owner sign, ∃ etag?, Index.etagOf? t group name owner sign = .ok etag?
  /-- Every entry of the feed can be read. -/
  feed : ∀ since, ∃ entries : List FeedEntry, Index.feed t since = .ok (entries.map .ok)
  changes : ∀ since max, ∃ entries, Index.changes t since max = .ok entries
  lastEtag : ∃ etag, Index.lastIndexedEtag t = .ok etag
  cursor : ∀ serverId, ∃ etag, Index.lastEtagFor t serverId = .ok etag
  cursors : ∃ peers, Index.peerEtags t = .ok peers
  document : ∃ document?, Index.replicationDocument? t = .ok document?
  summary : ∀ group skip take, ∃ page, Index.summary t group skip take = .ok page
  groups : ∃ sizes, Index.groups t = .ok sizes
  groupsCount : ∃ count, Index.groupsCount t = .ok count
  countersCount : ∃ count, Index.countersCount t = .ok count
  tombstonesCount : ∃ count, Index.tombstonesCount t = .ok count

namespace Catalog

variable {c : Catalog} {t : Transaction}

section Shows

variable (h : t.trees.Shows c.ledger)

include h

theorem total_answers (group name : String) :
    (∃ id total, Index.liveId? t group name = .ok (some id) ∧
      Index.totalOf t group name = .ok total) ∨
    (Index.liveId? t group name = .ok none ∧
      Index.totalOf t group name = .error (.counter (.notFound group name))) := by
  rw [index_liveId? h]
  cases hfound : c.liveId? group name with
  | some id =>
      obtain ⟨_, _, htotal⟩ := index_totalOf h ⟨id, (c.liveId?_eq_some_iff group name).1 hfound⟩
      exact .inl ⟨id, _, rfl, htotal⟩
  | none =>
      exact .inr ⟨rfl, index_totalOf_of_not_live h ((c.liveId?_eq_none_iff group name).1 hfound)⟩

theorem slots_answers (group name : String) :
    (∃ id slots, Index.anyId? t group name = .ok (some id) ∧
      Index.slotsOf t group name = .ok slots) ∨
    (Index.anyId? t group name = .ok none ∧
      Index.slotsOf t group name = .error (.counter (.notFound group name))) := by
  rw [index_anyId? h]
  cases hid : c.ids group name with
  | some id =>
      obtain ⟨slots, hslots, _⟩ := index_slotsOf h hid
      exact .inl ⟨id, slots, rfl, hslots⟩
  | none => exact .inr ⟨rfl, index_slotsOf_of_not_listed h hid⟩

/-- The cursors are listed as they stand in the tree. -/
theorem exists_peerEtags : ∃ peers, Index.peerEtags t = .ok peers := by
  obtain ⟨rows, _, _, _, hscan⟩ := Transaction.scanFrom_of_shows h .cursors
  have hscan' : ∃ rows : List (ServerId × Etag), t.scanFrom Layout.peerEtags [] =
      .ok (rows.map fun row => (row.1.bytes, Word.big row.2)) := ⟨_, hscan []⟩
  obtain ⟨rows, hscan⟩ := hscan'
  refine ⟨rows.map fun row => ⟨row.1, row.2⟩, ?_⟩
  rw [Index.peerEtags, hscan]
  simp only [bind, Except.bind]
  rw [List.mapM_map]
  refine mapM_eq_pure fun row _ => ?_
  simp only [Function.comp_apply, ServerId.ofBytes?_bytes, Stored.word_big]

/-- A document that was written is read. -/
theorem exists_replicationDocument? (hd : c.Documented) :
    ∃ document?, Index.replicationDocument? t = .ok document? := by
  rw [Index.replicationDocument?, metadata_of_shows h]
  cases hbytes : c.metadata Layout.replicationKey with
  | none => exact ⟨none, rfl⟩
  | some bytes =>
      obtain ⟨document, rfl⟩ := hd bytes hbytes
      refine ⟨some document, ?_⟩
      simp only [bind, Except.bind, ReplicationDocument.ofBytes?_render]
      rfl

theorem exists_memberCount (column : MultiColumn) :
    ∃ count, Index.memberCount t column.tree = .ok count := by
  obtain ⟨rows, hpairs, _⟩ := Transaction.pairsFrom_of_shows h column
  exact ⟨_, Index.memberCount_of_pairsFrom hpairs⟩

/-- The trees of a sound catalog answer. -/
theorem answers (hs : c.Sound) (hd : c.Documented) : t.Answers := by
  obtain ⟨feed, _, _, hfeed, hchanges⟩ := exists_feed h hs
  obtain ⟨etag, hlast, _⟩ := index_lastIndexedEtag h hs
  obtain ⟨groups, members, henrolls⟩ := exists_enrolls h
  exact {
    total := total_answers h
    slots := slots_answers h
    value := fun group name owner sign => ⟨_, index_valueOf? h group name owner sign⟩
    etag := fun group name owner sign => ⟨_, index_etagOf? h group name owner sign⟩
    feed := fun since => ⟨_, hfeed since⟩
    changes := fun since max => ⟨_, hchanges since max⟩
    lastEtag := ⟨etag, hlast⟩
    cursor := fun serverId => ⟨_, index_lastEtagFor h serverId⟩
    cursors := exists_peerEtags h
    document := exists_replicationDocument? h hd
    summary := fun group skip take => ⟨_, henrolls.summary_eq group skip take⟩
    groups := ⟨_, henrolls.groups_eq⟩
    groupsCount := ⟨_, henrolls.size⟩
    countersCount := exists_memberCount h .live
    tombstonesCount := exists_memberCount h .deleted }

end Shows

end Catalog

namespace Stage.Presents

variable {stage : Stage} {base cur : Catalog}

theorem reader_answers (h : stage.Presents base cur) : stage.reader.Answers :=
  Catalog.answers h.keeps.shows h.keeps.sound h.documented_base

theorem writer_answers {engine : Engine} {s : Session}
    (h : (writing engine s).Presents base cur) : s.writer.transaction.Answers := by
  obtain ⟨hs, _, _, _, hshows⟩ := h.carries
  exact Catalog.answers hshows.trees hs h.documented_cur

end Stage.Presents

end CounterMesh
