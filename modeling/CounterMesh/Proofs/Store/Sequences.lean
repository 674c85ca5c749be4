import CounterMesh.Proofs.Store.Indexes
import CounterMesh.Proofs.Store.Saved

/-!
# The sequences of a store

A store gives out etags and counter ids in two sequences. Writers keep the next
numbers in memory, commits record them in the trees, and a store that is opened
again, on the same engine or from a file, goes on from what is recorded. No
number is given out twice by writers that were committed, whatever a purge has
removed in between; the numbers of a writer that is dropped are free again.
-/

namespace CounterMesh

/-- The counter id stands in a key or in a listing of the trees. -/
inductive Transaction.Uses (t : Transaction) (id : CounterId) : Prop where
  | slot {owner : Owner} {sign : Sign} {value : Bytes}
      (h : t.get Layout.counters (SlotKey.bytes ⟨id, owner, sign⟩) = .ok (some value))
  | name {name group : Bytes}
      (h : t.get Layout.counterNames (NameKey.bytes id name) = .ok (some group))
  | listed {group name : String} (h : Index.anyId? t group name = .ok (some id))

/-- Both sequences of the node are as the trees record them, or zero where they record nothing, and
no etag of the index and no counter id in use is beyond them. -/
structure Node.Counts (node : Node) (t : Transaction) : Prop where
  lastEtag : Index.metadataWord t Layout.lastEtagKey = .ok node.lastEtag
  lastCounterId : Index.metadataWord t Layout.lastCounterIdKey = .ok node.lastCounterId
  etag_le : ∀ key slot, t.get Layout.etagToKey key = .ok (some slot) →
    ∃ etag, Word.big etag = key ∧ etag ≤ node.lastEtag
  counterId_le : ∀ id, t.Uses id → id ≤ node.lastCounterId

namespace Catalog

variable {c : Catalog} {t : Transaction}

/-- A counter id in use is that of a counter. -/
theorem exists_ids_of_uses (h : t.trees.Shows c.ledger) (hs : c.Sound) {id : CounterId}
    (huses : t.Uses id) : ∃ group name, c.ids group name = some id := by
  cases huses with
  | @slot owner sign value hget =>
      obtain ⟨p, v, hp, _, hvalue⟩ := (Transaction.get_eq_some_iff h .values).1 hget
      obtain rfl : p = ⟨id, owner.server, sign⟩ :=
        Place.bytes_injective (hp.trans (Place.bytes_slotKey id owner sign))
      obtain ⟨cell, hcell, _⟩ := Option.map_eq_some_iff.1 hvalue
      exact hs.id_of_slot hcell
  | @name name group hget =>
      obtain ⟨⟨id', n⟩, g, hkey, _, hid⟩ := (Transaction.get_eq_some_iff h .names).1 hget
      have hsplit : NameKey.split "" (NameKey.bytes id' (Bytes.ofText n)) =
          NameKey.split "" (NameKey.bytes id name) := congrArg (NameKey.split "") hkey
      rw [NameKey.split_bytes, NameKey.split_bytes, Except.ok.injEq] at hsplit
      obtain ⟨rfl, _⟩ := Prod.mk.inj hsplit
      exact ⟨g, n, hid⟩
  | @listed group name hid =>
      rw [index_anyId? h, Except.ok.injEq] at hid
      exact ⟨group, name, hid⟩

/-- A slot of the index by etag has its etag. -/
theorem exists_etagAt (h : t.trees.Shows c.ledger) {key slot : Bytes}
    (hget : t.get Layout.etagToKey key = .ok (some slot)) :
    ∃ etag p, Word.big etag = key ∧ Place.bytes p = slot ∧ c.etagAt p = some etag :=
  (Transaction.get_eq_some_iff h .places).1 hget

end Catalog

theorem Node.Keeps.counts {node : Node} {db : Database} {c : Catalog} (h : node.Keeps db c)
    {t : Transaction} (ht : t.trees = db) : node.Counts t := by
  obtain rfl := ht
  refine ⟨?_, ?_, fun key slot hget => ?_, fun id huses => ?_⟩
  · rw [h.lastEtag]
    exact Catalog.metadataWord_of_shows h.shows h.records.lastEtag
  · rw [h.lastCounterId]
    exact Catalog.metadataWord_of_shows h.shows h.records.lastCounterId
  · obtain ⟨etag, p, hkey, _, hetag⟩ := Catalog.exists_etagAt h.shows hget
    exact ⟨etag, hkey, h.lastEtag ▸ h.sound.etagAt_le hetag⟩
  · obtain ⟨group, name, hid⟩ := Catalog.exists_ids_of_uses h.shows h.sound huses
    exact h.lastCounterId ▸ h.sound.id_le hid

namespace Stage

variable {stage stage' stage'' : Stage} {event : Event} {allowed : Event → Prop}

/-- A run by allowed events from one stage to another. -/
inductive Leads (allowed : Event → Prop) (stage : Stage) : Stage → Prop where
  | refl : Leads allowed stage stage
  | turn {stage' stage'' : Stage} {event : Event} (h : Leads allowed stage stage')
      (hallowed : allowed event) (hturn : Turn stage' event stage'') : Leads allowed stage stage''

/-- The stages of a store that was opened on nothing. -/
def Arises (stage : Stage) : Prop :=
  ∃ (opening : Opening) (store : Store), opening.start .empty = .ok store ∧
    opening.fresh ≠ .nil ∧ Leads (fun _ => True) (idle store) stage

theorem Leads.reachable (h : Leads allowed stage stage') (hreachable : Reachable stage) :
    Reachable stage' := by
  induction h with
  | refl => exact hreachable
  | turn h hallowed hturn ih => exact ih.step (hturn.toStep ih.dense)

theorem Arises.reachable (h : stage.Arises) : Reachable stage := by
  obtain ⟨opening, store, hstart, hfresh, hleads⟩ := h
  exact hleads.reachable (.start hstart hfresh)

theorem Reachable.arises (h : Reachable stage) : stage.Arises := by
  induction h with
  | start hstart hfresh => exact ⟨_, _, hstart, hfresh, .refl⟩
  | step h hstep ih =>
      obtain ⟨opening, store, hstart, hfresh, hleads⟩ := ih
      exact ⟨opening, store, hstart, hfresh, hleads.turn trivial (.step hstep)⟩

variable {base cur : Catalog}

/-- What is committed at the end of a run follows what was committed at its beginning, and only a
commit changes it. -/
theorem Leads.presents (h : Leads allowed stage stage') (hreachable : Reachable stage)
    (hpresents : stage.Presents base cur) :
    ∃ base' cur', stage'.Presents base' cur' ∧ base.Follows base' ∧
      ((∀ notify, ¬ allowed (.commit notify)) → base' = base) := by
  induction h with
  | refl => exact ⟨base, cur, hpresents, .refl base, fun _ => rfl⟩
  | @turn stage' stage'' event h hallowed hturn ih =>
      obtain ⟨base', cur', hpresents', hfollows, heq⟩ := ih
      obtain ⟨base'', cur'', hpresents'', hmoves⟩ :=
        (hturn.toStep (h.reachable hreachable).dense).presents hpresents'
      refine ⟨base'', cur'', hpresents'',
        hfollows.trans (hmoves.follows_base hpresents'.follows), fun hnone => ?_⟩
      rw [hmoves.base_eq fun notify hcommit => hnone notify (hcommit ▸ hallowed), heq hnone]

/-- The etags that an open writer has given out: its sequence has passed them since it was
opened. -/
def Assigned : Stage → Etag → Prop
  | idle _, _ => False
  | writing _ s, etag => s.node.lastEtag < etag ∧ etag ≤ s.writer.lastEtag

/-- The counter ids that an open writer has given out. -/
def Allocated : Stage → CounterId → Prop
  | idle _, _ => False
  | writing _ s, id => s.node.lastCounterId < id ∧ id ≤ s.writer.lastCounterId

/-- What the trees of an open writer hold that was not committed before has numbers that the writer
has given out. -/
structure Renumbers (stage : Stage) : Prop where
  etags : ∀ key slot, stage.transaction.get Layout.etagToKey key = .ok (some slot) →
    stage.reader.get Layout.etagToKey key = .ok (some slot) ∨
      ∃ etag, Word.big etag = key ∧ stage.Assigned etag
  counterIds : ∀ group name id, Index.anyId? stage.transaction group name = .ok (some id) →
    Index.anyId? stage.reader group name = .ok (some id) ∨ stage.Allocated id

namespace Presents

theorem assigned_iff (h : stage.Presents base cur) {etag : Etag} :
    stage.Assigned etag ↔ base.lastEtag < etag ∧ etag ≤ cur.lastEtag := by
  cases stage with
  | idle store =>
      obtain ⟨rfl, _⟩ := h.carries
      exact ⟨False.elim, fun h => absurd h.1 (UInt64.not_lt.2 h.2)⟩
  | writing engine s =>
      obtain ⟨_, _, home, _, hshows⟩ := h.carries
      have hnode : s.node.lastEtag = base.lastEtag := h.keeps.lastEtag
      have hwriter : s.writer.lastEtag = cur.lastEtag := hshows.lastEtag
      rw [Assigned, hnode, hwriter]

theorem allocated_iff (h : stage.Presents base cur) {id : CounterId} :
    stage.Allocated id ↔ base.lastCounterId < id ∧ id ≤ cur.lastCounterId := by
  cases stage with
  | idle store =>
      obtain ⟨rfl, _⟩ := h.carries
      exact ⟨False.elim, fun h => absurd h.1 (UInt64.not_lt.2 h.2)⟩
  | writing engine s =>
      obtain ⟨_, _, home, _, hshows⟩ := h.carries
      have hnode : s.node.lastCounterId = base.lastCounterId := h.keeps.lastCounterId
      have hwriter : s.writer.lastCounterId = cur.lastCounterId := hshows.lastCounterId
      rw [Allocated, hnode, hwriter]

theorem renumbers (h : stage.Presents base cur) : stage.Renumbers where
  etags := by
    intro key slot hget
    obtain ⟨etag, p, rfl, rfl, hetag⟩ := Catalog.exists_etagAt h.transaction_shows hget
    obtain ⟨value, hcell⟩ := cur.etagAt_eq_some_iff.1 hetag
    rcases h.follows.cells hcell with hcell' | hlt
    · refine .inl ((Transaction.get_eq_some_iff h.reader_shows .places).2 ⟨etag, p, rfl, rfl, ?_⟩)
      exact base.etagAt_eq_some_iff.2 ⟨value, hcell'⟩
    · exact .inr ⟨etag, rfl, h.assigned_iff.2 ⟨hlt, h.sound_cur.etag_le hcell⟩⟩
  counterIds := by
    intro group name id hid
    rw [Catalog.index_anyId? h.transaction_shows, Except.ok.injEq] at hid
    rw [Catalog.index_anyId? h.reader_shows, Except.ok.injEq]
    exact (h.follows.ids hid).imp_right fun hlt =>
      h.allocated_iff.2 ⟨hlt, h.sound_cur.id_le hid⟩

end Presents

/-- What a commit makes the committed catalog. -/
theorem Turn.presents_commit {notify : Bool} (hturn : Turn stage (.commit notify) stage')
    (h : stage.Presents base cur) : stage'.Presents cur cur := by
  cases hturn with
  | step hstep =>
      obtain ⟨_, _, hpresents, hmoves⟩ := hstep.presents h
      cases hmoves
      exact hpresents

/-- A store whose sequences have room counts in order, however it is used and opened again. Its node
knows both sequences as they were committed; without a commit they stay as they are; after a commit
every number that a writer gives out is greater than all that were given out before; and a counter
id that was committed never names another counter. -/
theorem Arises.sequences (h : stage.Arises) :
    stage.node.Counts stage.reader ∧ stage.Renumbers ∧
    (∀ stage', Leads (fun event => ∀ notify, event ≠ .commit notify) stage stage' →
      stage'.node.lastEtag = stage.node.lastEtag ∧
      stage'.node.lastCounterId = stage.node.lastCounterId) ∧
    (∀ notify stage' stage'', Turn stage (.commit notify) stage' →
      Leads (fun _ => True) stage' stage'' →
      (∀ etag etag', stage.Assigned etag → stage''.Assigned etag' → etag < etag') ∧
      ∀ id id', stage.Allocated id → stage''.Allocated id' → id < id') ∧
    ∀ stage', Leads (fun _ => True) stage stage' → ∀ group name group' name' id,
      Index.anyId? stage.reader group name = .ok (some id) →
      Index.anyId? stage'.transaction group' name' = .ok (some id) →
      group' = group ∧ name' = name := by
  have hreachable := h.reachable
  obtain ⟨base, cur, hpresents⟩ := hreachable.presents
  refine ⟨hpresents.keeps.counts rfl, hpresents.renumbers, ?_, ?_, ?_⟩
  · intro stage' hleads
    obtain ⟨base', cur', hpresents', _, heq⟩ := hleads.presents hreachable hpresents
    obtain rfl := heq fun notify hne => hne notify rfl
    exact ⟨hpresents'.keeps.lastEtag.trans hpresents.keeps.lastEtag.symm,
      hpresents'.keeps.lastCounterId.trans hpresents.keeps.lastCounterId.symm⟩
  · intro notify stage' stage'' hturn hleads
    obtain ⟨base'', cur'', hpresents'', hfollows, _⟩ :=
      hleads.presents (hreachable.step (hturn.toStep hreachable.dense))
        (hturn.presents_commit hpresents)
    constructor
    · intro etag etag' hetag hetag'
      have hle := (hpresents.assigned_iff.1 hetag).2
      have hlt := (hpresents''.assigned_iff.1 hetag').1
      exact UInt64.lt_of_le_of_lt (UInt64.le_trans hle hfollows.lastEtag_le) hlt
    · intro id id' hid hid'
      have hle := (hpresents.allocated_iff.1 hid).2
      have hlt := (hpresents''.allocated_iff.1 hid').1
      exact UInt64.lt_of_le_of_lt (UInt64.le_trans hle hfollows.lastCounterId_le) hlt
  · intro stage' hleads group name group' name' id hid hid'
    obtain ⟨base', cur', hpresents', hfollows, _⟩ := hleads.presents hreachable hpresents
    rw [Catalog.index_anyId? hpresents.reader_shows, Except.ok.injEq] at hid
    rw [Catalog.index_anyId? hpresents'.transaction_shows, Except.ok.injEq] at hid'
    have hs := hpresents.keeps.sound
    have hsame := (hfollows.trans hpresents'.follows).ids_of_le hid' (hs.id_le hid)
    exact hs.id_unique hsame hid

/-- The etags of a counter that was deleted and purged in one writer are not given out again after
the writer is committed, although nothing in the trees but the record of the sequence is left of
them. -/
theorem sequences_of_purge : ∃ stage : Stage, stage.Arises ∧
    stage.transaction.entryCount Layout.etagToKey = .ok 0 ∧ stage.Assigned 3 ∧
    ∀ notify stage' stage'', Turn stage (.commit notify) stage' →
      Leads (fun _ => True) stage' stage'' → ∀ etag, stage''.Assigned etag → 3 < etag := by
  obtain ⟨engine, s, _, hreachable, hempty, hassigned⟩ :=
    exists_afterCalls_of_finds
      { plainOpening with config := { tombstoneRetention := 0 } } rfl (by decide)
      (by decide) [.store "group" "name" 5, .delete "group" "name", .purge] (by decide)
      (fun engine s => s.writer.transaction.entryCount Layout.etagToKey = .ok 0 ∧
        s.node.lastEtag < 3 ∧ 3 ≤ s.writer.lastEtag) (by decide +kernel)
  refine ⟨_, hreachable.arises, hempty, hassigned, ?_⟩
  intro notify stage' stage'' hturn hleads etag hetag
  exact (hreachable.arises.sequences.2.2.2.1 notify stage' stage'' hturn hleads).1 3 etag hassigned
    hetag

end Stage

end CounterMesh
