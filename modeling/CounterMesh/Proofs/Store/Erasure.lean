import CounterMesh.Proofs.Store.Isolation
import CounterMesh.Proofs.Store.Preserved
import CounterMesh.Proofs.Store.Stages

/-!
# What a purge erases

A purge looks at the front of the list by date and stops at the first tombstone
that is younger than the retention. Deletion times are signed words, whose forms
in the list sort as the numbers, so it finds every expired tombstone, oldest
first, and takes one batch of them. All rows of their counters go, in six trees;
every other row stays, and so does what the trees say of every other counter.
-/

namespace CounterMesh

namespace Config

variable {config : Config}

theorem fault?_of_valid (h : config.validate = .ok ()) : config.fault? = none := by
  rw [validate] at h
  cases hfault : config.fault? with
  | none => rfl
  | some fault =>
      rw [hfault] at h
      cases h

theorem retention_le (h : config.validate = .ok ()) : config.tombstoneRetention ≤ maxRetention := by
  have hfault := fault?_of_valid h
  rw [fault?] at hfault
  split at hfault
  · cases hfault
  · split at hfault
    · cases hfault
    · split at hfault
      · cases hfault
      · next hle => exact UInt64.not_lt.1 hle

/-- Valid settings are positive where they have to be. -/
theorem setting_pos (h : config.validate = .ok ()) {setting : Setting} {value : UInt64}
    (hmem : (setting, value) ∈ config.positiveSettings) : 0 < value.toNat := by
  have hfault := fault?_of_valid h
  rw [fault?] at hfault
  split at hfault
  · cases hfault
  · split at hfault
    · cases hfault
    · next hnone =>
        have hzero := List.find?_eq_none.1 hnone (setting, value) hmem
        refine Nat.pos_of_ne_zero fun heq => hzero ?_
        exact beq_iff_eq.2 (UInt64.toNat_inj.1 heq)

theorem batch_pos (h : config.validate = .ok ()) : 0 < config.deletedTombstonesInBatch.toNat :=
  setting_pos h List.mem_cons_self

theorem replicationBatch_pos (h : config.validate = .ok ()) :
    0 < config.replicationBatchSize.toNat :=
  setting_pos h (.tail _ (.tail _ List.mem_cons_self))

/-- The limit of a batch may be any number but zero. -/
theorem validate_withBatch (h : config.validate = .ok ()) {batch : UInt64} (hbatch : batch ≠ 0) :
    { config with deletedTombstonesInBatch := batch }.validate = .ok () := by
  have hpos := batch_pos h
  have hold : config.deletedTombstonesInBatch ≠ 0 := fun heq => by
    rw [heq] at hpos
    cases hpos
  have hfind : { config with deletedTombstonesInBatch := batch }.positiveSettings.find?
      (fun setting => setting.2 == 0) =
        config.positiveSettings.find? fun setting => setting.2 == 0 :=
    (List.find?_cons_of_neg (by simpa using hbatch)).trans
      (List.find?_cons_of_neg (by simpa using hold)).symm
  rw [← h, validate, validate, fault?, fault?, hfind]

/-- The retention in milliseconds is a word. -/
theorem toInt_retentionTicks (h : config.validate = .ok ()) :
    config.retentionTicks.toInt = config.retentionMillis := by
  have hle := UInt64.le_iff_toNat_le.1 (retention_le h)
  have hseconds : maxRetention.toNat = 9223372036854775 := rfl
  have hmax : Int64.maxValue.toInt = 2 ^ 63 - 1 := rfl
  exact Word.toInt_clamp (by rw [retentionMillis]; omega)

end Config

/-- The tombstone is at least as old as the retention at a time, in exact integers. -/
def Tombstone.Expired (config : Config) (now : Int) (tombstone : Tombstone) : Prop :=
  (config.tombstoneRetention.toNat * 1000 : Int) ≤ now - tombstone.date.toInt

instance Tombstone.decidableExpired (config : Config) (now : Int) :
    DecidablePred (Tombstone.Expired config now) :=
  fun tombstone => inferInstanceAs (Decidable (_ ≤ now - tombstone.date.toInt))

/-- The cutoff of a purge does not overflow, so it parts the tombstones as the exact integers do. -/
theorem Tombstone.expired_iff {config : Config} (h : config.validate = .ok ()) (now : UInt64)
    (tombstone : Tombstone) : tombstone.Expired config (ticksOf now).toInt ↔
      tombstone.date ≤ ticksOf now - config.retentionTicks := by
  have hretention := Config.toInt_retentionTicks h
  have hmillis : config.retentionMillis = config.tombstoneRetention.toNat * 1000 := rfl
  have hcutoff : (ticksOf now - config.retentionTicks).toInt =
      (ticksOf now).toInt - config.retentionMillis := by
    rw [← hretention]
    exact Word.toInt_sub_of_nonneg (Word.toInt_clamp_nonneg _) (Word.toInt_clamp_nonneg _)
  rw [Int64.le_iff_toInt_le, hcutoff, hmillis, Expired]
  omega

namespace Transaction

variable {t t' : Transaction}

/-- These are the tombstones that the trees hold, in the order of the list by date. -/
structure Entombs (t : Transaction) (tombstones : List Tombstone) : Prop where
  sorted : tombstones.Pairwise Tombstone.Before
  mem_iff : ∀ date counterId, ⟨date, counterId⟩ ∈ tombstones ↔
    t.get Layout.counters (SlotKey.tombstone counterId).bytes = .ok (some (Word.little date))

/-- A tree loses these rows and no others. -/
def Loses (t t' : Transaction) (tree : String) (gone : Bytes → Bytes → Prop) : Prop :=
  ∀ key value, t'.HasRow tree key value ↔ t.HasRow tree key value ∧ ¬ gone key value

/-- A tree that presents what is left of a relation loses the rows of all that is gone. -/
theorem loses_of_rows {κ α : Type} {keys : Code κ} {values : Code α} {pairs pairs' : Pairs κ α}
    {tree : String} {ids : List CounterId}
    (h : ∀ key value, t.HasRow tree key value ↔
      ∃ x y, keys.bytes x = key ∧ values.bytes y = value ∧ pairs x y)
    (h' : ∀ key value, t'.HasRow tree key value ↔
      ∃ x y, keys.bytes x = key ∧ values.bytes y = value ∧ pairs' x y)
    {about : κ → α → CounterId} {part : Bytes → Bytes → CounterId → Prop}
    (hpart : ∀ x y id, part (keys.bytes x) (values.bytes y) id ↔ about x y = id)
    (hpairs : ∀ x y, pairs' x y ↔ pairs x y ∧ about x y ∉ ids) :
    t.Loses t' tree fun key value => ∃ id ∈ ids, part key value id := by
  have hgone : ∀ x y, (∃ id ∈ ids, part (keys.bytes x) (values.bytes y) id) ↔ about x y ∈ ids := by
    intro x y
    simp only [hpart]
    exact ⟨fun ⟨id, hid, heq⟩ => heq ▸ hid, fun hid => ⟨_, hid, rfl⟩⟩
  intro key value
  rw [h', h]
  constructor
  · rintro ⟨x, y, rfl, rfl, hpair⟩
    obtain ⟨hpair, hnot⟩ := (hpairs x y).1 hpair
    exact ⟨⟨x, y, rfl, rfl, hpair⟩, fun hmem => hnot ((hgone x y).1 hmem)⟩
  · rintro ⟨⟨x, y, rfl, rfl, hpair⟩, hnot⟩
    exact ⟨x, y, rfl, rfl, (hpairs x y).2 ⟨hpair, fun hmem => hnot ((hgone x y).2 hmem)⟩⟩

/-- The rows of these counters are gone from all trees, and the trees hold and say the same of
every other counter, live or deleted, and of the peers. -/
structure Erases (t t' : Transaction) (ids : List CounterId) : Prop where
  slots : t.Loses t' Layout.counters fun key _ => ∃ id ∈ ids, Word.big id <+: key
  etags : t.Loses t' Layout.keyToEtag fun key _ => ∃ id ∈ ids, Word.big id <+: key
  feed : t.Loses t' Layout.etagToKey fun _ key => ∃ id ∈ ids, Word.big id <+: key
  names : t.Loses t' Layout.counterNames fun key _ => ∃ id ∈ ids, Word.big id <+: key
  deleted : t.Loses t' Layout.tombstonedGroupCounters fun _ entry =>
    ∃ id ∈ ids, Word.big id <:+ entry
  dates : t.Loses t' Layout.tombstonesByDate fun _ key => ∃ id ∈ ids, Word.big id <+: key
  live : t'.trees.get? Layout.groupCounters = t.trees.get? Layout.groupCounters
  cursors : t'.trees.get? Layout.peerEtags = t.trees.get? Layout.peerEtags
  metadata : t'.trees.get? Layout.metadata = t.trees.get? Layout.metadata
  gone : ∀ {group name id}, id ∈ ids → Index.anyId? t group name = .ok (some id) →
    Index.anyId? t' group name = .ok none
  not_live : ∀ {group name id}, id ∈ ids → Index.liveId? t group name ≠ .ok (some id)
  others : ∀ {group name}, (∀ id ∈ ids, Index.anyId? t group name ≠ .ok (some id)) →
    t.SameAnswers t' group name

end Transaction

/-- These counters are erased from the trees of a writer, which takes no number and records no
change. -/
structure Session.Erases (s s' : Session) (ids : List CounterId) : Prop where
  trees : s.writer.transaction.Erases s'.writer.transaction ids
  lastEtag : s'.writer.lastEtag = s.writer.lastEtag
  lastCounterId : s'.writer.lastCounterId = s.writer.lastCounterId
  changes : s'.writer.changes = s.writer.changes

namespace Catalog

variable {c : Catalog} {t t' : Transaction} {ids : List CounterId} {tombstones : List Tombstone}

theorem Entombs.transaction (h : c.Entombs tombstones) (ht : t.trees.Shows c.ledger) :
    t.Entombs tombstones where
  sorted := h.sorted
  mem_iff := by
    intro date id
    rw [h.mem_iff, Place.bytes_tombstone]
    refine Iff.trans ?_ (Transaction.get_eq_some_iff ht .values).symm
    constructor
    · exact fun hvalue => ⟨.tombstone id, date, rfl, rfl, hvalue⟩
    · rintro ⟨p, value, hp, hvalue, hpair⟩
      rwa [Place.bytes_injective hp, Word.little_injective hvalue] at hpair

/-- The counters that are not forgotten stay as they are. -/
theorem Agrees.forgetAll {group name : String} (h : ∀ id ∈ ids, c.ids group name ≠ some id) :
    c.Agrees (c.forgetAll ids) group name := by
  induction ids generalizing c with
  | nil => exact .refl c group name
  | cons first rest ih =>
      obtain ⟨hfirst, hrest⟩ := List.forall_mem_cons.1 h
      have hagrees := Agrees.forget (c := c) hfirst
      exact hagrees.trans (ih fun id hid => by rw [hagrees.ids]; exact hrest id hid)

/-- What no single counter changes when it is forgotten, several do not change. -/
theorem forgetAll_view {ν : Type*} (view : Catalog → ν)
    (h : ∀ c counterId, view (Catalog.forget c counterId) = view c) :
    view (c.forgetAll ids) = view c := by
  induction ids generalizing c with
  | nil => rfl
  | cons first rest ih => exact ih.trans (h c first)

section Loses

variable (ht : t.trees.Shows c.ledger) (ht' : t'.trees.Shows (c.forgetAll ids).ledger)

include ht ht'

/-- A plain column loses the rows that are about one of the forgotten counters, where `part` tells
from the bytes of a row which counter it is about. -/
theorem loses_plain (column : PlainColumn) (about : column.Key → column.Value → CounterId)
    {part : Bytes → Bytes → CounterId → Prop}
    (hpart : ∀ x y id, part (column.keyCode.bytes x) (column.valueCode.bytes y) id ↔ about x y = id)
    (hpairs : ∀ x y, (c.forgetAll ids).ledger.plain column x y ↔
      c.ledger.plain column x y ∧ about x y ∉ ids) :
    t.Loses t' column.tree fun key value => ∃ id ∈ ids, part key value id :=
  Transaction.loses_of_rows (fun _ _ => Transaction.hasRow_plain ht column)
    (fun _ _ => Transaction.hasRow_plain ht' column) hpart hpairs

theorem loses_multi (column : MultiColumn) (about : column.Key → column.Value → CounterId)
    {part : Bytes → Bytes → CounterId → Prop}
    (hpart : ∀ x y id, part (column.keyCode.bytes x) (column.valueCode.bytes y) id ↔ about x y = id)
    (hpairs : ∀ x y, (c.forgetAll ids).ledger.multi column x y ↔
      c.ledger.multi column x y ∧ about x y ∉ ids) :
    t.Loses t' column.tree fun key value => ∃ id ∈ ids, part key value id :=
  Transaction.loses_of_rows (fun _ _ => Transaction.hasRow_multi ht column)
    (fun _ _ => Transaction.hasRow_multi ht' column) hpart hpairs

/-- To forget deleted counters in the catalog is to erase them from the trees. -/
theorem erases (hs : c.Sound) (hs' : (c.forgetAll ids).Sound)
    (hdeleted : ∀ id ∈ ids, c.Deleted id) : t.Erases t' ids := by
  constructor
  case slots =>
    exact loses_plain ht ht' .values (fun p _ => p.counterId)
      (fun p _ id => Place.prefix_bytes_iff id p) fun _ _ => valueAt_forgetAll_iff
  case etags =>
    exact loses_plain ht ht' .etags (fun p _ => p.counterId)
      (fun p _ id => Place.prefix_bytes_iff id p) fun _ _ => etagAt_forgetAll_iff
  case feed =>
    exact loses_plain ht ht' .places (fun _ p => p.counterId)
      (fun _ p id => Place.prefix_bytes_iff id p) fun _ _ => etagAt_forgetAll_iff
  case names =>
    exact loses_plain ht ht' .names (fun key _ => key.1)
      (fun key _ id => NameKey.prefix_bytes_iff id key.1 _) fun _ _ => ids_forgetAll_eq_some_iff
  case deleted =>
    refine loses_multi ht ht' .deleted (fun _ entry => entry.2)
      (fun _ entry id => Word.big_suffix_append_iff id entry.2 _) fun group entry => ?_
    rw [multi_ledger_deleted, multi_ledger_deleted, ids_forgetAll_eq_some_iff,
      deleted_forgetAll_iff]
    tauto
  case dates =>
    refine loses_multi ht ht' .dates (fun _ p => p.counterId)
      (fun _ p id => Place.prefix_bytes_iff id p) fun date p => ?_
    rw [multi_ledger_dates, multi_ledger_dates, valueAt_forgetAll_iff, and_assoc]
  case live =>
    refine ht'.get?_multi_eq ht (c := .live) ?_
    funext group entry
    rw [multi_ledger_live, multi_ledger_live, ids_forgetAll_eq_some_iff, deleted_forgetAll_iff]
    refine propext ⟨?_, fun ⟨hid, hlive⟩ => ?_⟩
    · rintro ⟨⟨hid, hnot⟩, hlive⟩
      exact ⟨hid, fun h => hlive ⟨h, hnot⟩⟩
    · exact ⟨⟨hid, fun hmem => hlive (hdeleted _ hmem)⟩, fun h => hlive h.1⟩
  case cursors =>
    exact ht'.get?_plain_eq ht
      (forgetAll_view (fun c => c.ledger.plain .cursors) fun _ _ => rfl)
  case metadata =>
    exact ht'.get?_plain_eq ht
      (forgetAll_view (fun c => c.ledger.plain .metadata) fun _ _ => rfl)
  case gone =>
    intro group name id hid hany
    rw [index_anyId? ht, Except.ok.injEq] at hany
    rw [index_anyId? ht', Except.ok.injEq, Option.eq_none_iff_forall_ne_some]
    intro id' hid'
    obtain ⟨hlisted, hnot⟩ := ids_forgetAll_eq_some_iff.1 hid'
    exact hnot (Option.some.inj (hany.symm.trans hlisted) ▸ hid)
  case not_live =>
    intro group name id hid hlive
    rw [index_liveId? ht, Except.ok.injEq, liveId?_eq_some_iff] at hlive
    exact hlive.2 (hdeleted id hid)
  case others =>
    intro group name hother
    refine (Agrees.forgetAll fun id hid heq => hother id hid ?_).sameAnswers ht ht' hs hs'
    rw [index_anyId? ht, heq]

end Loses

end Catalog

namespace Stage

/-- In every state of a run a purge erases the expired tombstones, oldest first and at most one
batch of them, with all rows of their counters, and tells whether there are any. -/
theorem Reachable.purge_erases_expired {engine : Engine} {s : Session}
    (h : Reachable (writing engine s))
    (hnow : (s.node.clock.now.1.toNat : Int) ≤ Int64.maxValue.toInt) :
    ∃ tombstones, s.writer.transaction.Entombs tombstones ∧
      ∃ expired, expired =
          tombstones.filter (Tombstone.Expired s.node.config s.node.clock.now.1.toNat) ∧
        ∃ any s', Write.purgeBatch.run s = .ok any s' ∧ (any = true ↔ 0 < expired.length) ∧
          s.Erases s' ((expired.take s.node.config.deletedTombstonesInBatch.toNat).map
            Tombstone.counterId) := by
  obtain ⟨base, cur, hpresents⟩ := h.presents
  obtain ⟨hs, _, home, _, hshows⟩ := hpresents.carries
  have hvalid : s.node.config.validate = .ok () := h.ready
  obtain ⟨tombstones, htombstones, _⟩ := Catalog.exists_entombs hshows.trees
  have hticks : (ticksOf s.node.clock.now.1).toInt = s.node.clock.now.1.toNat :=
    Word.toInt_clamp hnow
  have hdue : (tombstones.filter fun tombstone => tombstone.date ≤
        ticksOf s.node.clock.now.1 - home.config.retentionTicks) =
      tombstones.filter (Tombstone.Expired s.node.config s.node.clock.now.1.toNat) := by
    refine List.filter_congr fun tombstone _ => ?_
    rw [decide_eq_decide, ← hticks, Tombstone.expired_iff hvalid, hshows.config_eq]
  refine ⟨tombstones, htombstones.transaction hshows.trees, _, rfl, ?_⟩
  obtain ⟨any, s', hrun, ⟨rfl, h'⟩, hchanges⟩ :=
    (Write.returns_purgeBatch hshows hs htombstones rfl).and_ends
      (Write.leaves_purgeBatch Write.apart_changes s)
  rw [hdue, ← hshows.config_eq] at hrun h'
  refine ⟨_, s', hrun, ?_, ?_⟩
  · rw [Bool.not_eq_true', List.isEmpty_eq_false_iff, List.length_pos_iff, ne_eq, ne_eq,
      List.take_eq_nil_iff, not_or]
    exact and_iff_right (Nat.ne_of_gt (Config.batch_pos hvalid))
  · have hdeleted := htombstones.deleted
      (fun tombstone => tombstone.Expired s.node.config s.node.clock.now.1.toNat)
      s.node.config.deletedTombstonesInBatch.toNat
    have hforgets := Catalog.Forgets.refl.forgetAll fun id hid g n _ => hdeleted id hid
    exact {
      trees := Catalog.erases hshows.trees h'.trees hs (hforgets.sound hs) hdeleted
      lastEtag := h'.lastEtag.trans
        ((Catalog.forgetAll_view Catalog.lastEtag fun _ _ => rfl).trans hshows.lastEtag.symm)
      lastCounterId := h'.lastCounterId.trans
        ((Catalog.forgetAll_view Catalog.lastCounterId fun _ _ => rfl).trans
          hshows.lastCounterId.symm)
      changes := hchanges }

/-- A tombstone from before the epoch has expired, and one of just now has not. -/
theorem purge_erases_before_epoch : ∃ s s' tombstones,
    s.writer.transaction.Entombs tombstones ∧ Write.purgeBatch.run s = .ok true s' ∧
    0 < (tombstones.filter (Tombstone.Expired s.node.config s.node.clock.now.1.toNat)).length ∧
    s.Erases s' (((tombstones.filter
      (Tombstone.Expired s.node.config s.node.clock.now.1.toNat)).take
        s.node.config.deletedTombstonesInBatch.toNat).map Tombstone.counterId) ∧
    Index.anyId? s.writer.transaction "group" "old" = .ok (some 1) ∧
    Index.anyId? s'.writer.transaction "group" "old" = .ok none ∧
    Index.deletedId? s'.writer.transaction "group" "new" = .ok (some 2) := by
  obtain ⟨engine, s, _, hreachable, hnow, hold, hpurged⟩ :=
    exists_afterCalls_of_finds plainOpening rfl (by decide) (by decide)
      [.storeReplicated "group" "old" .nil .positive (-5), .store "group" "new" 3,
        .delete "group" "new"] (by decide)
      (fun _ s => (s.node.clock.now.1.toNat : Int) ≤ Int64.maxValue.toInt ∧
        Index.anyId? s.writer.transaction "group" "old" = .ok (some 1) ∧
        (match Write.purgeBatch.run s with
        | .ok any s' => any && decide (
            Index.anyId? s'.writer.transaction "group" "old" = .ok none ∧
            Index.deletedId? s'.writer.transaction "group" "new" = .ok (some 2))
        | .error _ _ => false) = true) (by decide +kernel)
  obtain ⟨tombstones, hentombs, _, rfl, any, s', hrun, hany, herases⟩ :=
    hreachable.purge_erases_expired hnow
  simp only [hrun, Bool.and_eq_true, decide_eq_true_iff] at hpurged
  obtain ⟨rfl, hgone, hkept⟩ := hpurged
  exact ⟨s, s', tombstones, hentombs, hrun, hany.1 rfl, herases, hold, hgone, hkept⟩

end Stage

end CounterMesh
