import CounterMesh.Proofs.Store.Commit
import CounterMesh.Store.Opening

/-!
# Opening a store on a catalog

A store that opens on an engine without trees presents the empty catalog, which
is sound. A store that opens on trees that present a sound catalog finds all of
them in place, reads its id and its sequences back, and changes nothing.
-/

namespace CounterMesh

namespace Catalog

/-- The catalog of trees without entries. -/
def bare : Catalog := ⟨fun _ _ => none, fun _ => none, fun _ => none, fun _ => none, 0, 0⟩

/-- The catalog of a store without counters. -/
def initial (serverId : ServerId) : Catalog :=
  (bare.setMetadata Layout.formatKey Layout.formatHeader).setMetadata Layout.serverIdKey
    serverId.bytes

theorem bare_sound : bare.Sound := by
  constructor <;> intros <;> simp_all [bare]

theorem initial_sound (serverId : ServerId) : (initial serverId).Sound :=
  (bare_sound.setMetadata _ _).setMetadata _ _

theorem initial_records (serverId : ServerId) : (initial serverId).Records serverId where
  format := by
    rw [initial, metadata_setMetadata, Function.update_of_ne (by decide), metadata_setMetadata,
      Function.update_self]
  server := by
    rw [initial, metadata_setMetadata, Function.update_self]
  lastEtag := by
    rw [initial, metadata_setMetadata, Function.update_of_ne (by decide), metadata_setMetadata,
      Function.update_of_ne (by decide)]
    rfl
  lastCounterId := by
    rw [initial, metadata_setMetadata, Function.update_of_ne (by decide), metadata_setMetadata,
      Function.update_of_ne (by decide)]
    rfl

variable {c : Catalog} {t : Transaction} {serverId : ServerId}

theorem metadata_of_shows (h : t.trees.Shows c.ledger) (key : Bytes) :
    t.get Layout.metadata key = .ok (c.metadata key) := by
  obtain ⟨found, hget, hfound⟩ := Transaction.get_of_shows h .metadata key
  have hmeta : c.metadata key = found.map id := by
    rw [Option.map_id]
    apply Option.ext
    intro value
    exact (hfound value).symm
  rw [hmeta]
  exact hget

theorem metadataWord_of_shows (h : t.trees.Shows c.ledger) {key : Bytes} {n : UInt64}
    (hkey : (c.metadata key).getD (Word.big 0) = Word.big n) :
    Index.metadataWord t key = .ok n := by
  rw [Index.metadataWord, metadata_of_shows h]
  cases hfound : c.metadata key with
  | none =>
      rw [hfound] at hkey
      exact congrArg Except.ok (Word.big_injective hkey)
  | some bytes =>
      rw [hfound] at hkey
      have hbytes : bytes = Word.big n := hkey
      simp only [hbytes, bind, Except.bind, Stored.word_big]

theorem index_lastCounterId (h : t.trees.Shows c.ledger) (hr : c.Records serverId) :
    Index.lastCounterId t = .ok c.lastCounterId :=
  metadataWord_of_shows h hr.lastCounterId

/-- The greatest indexed etag is not behind the recorded one. -/
theorem index_lastIndexedEtag (h : t.trees.Shows c.ledger) (hs : c.Sound) :
    ∃ etag, Index.lastIndexedEtag t = .ok etag ∧ etag ≤ c.lastEtag := by
  obtain ⟨tree, hplain, htree⟩ := Transaction.plain_of_shows h .places
  obtain ⟨rows, hrows, hmem⟩ := htree.rows
  have hlast : t.last Layout.etagToKey = .ok tree.last? := by
    have hplain' : t.plain Layout.etagToKey = .ok tree := hplain
    rw [Transaction.last, hplain']
    rfl
  rw [Index.lastIndexedEtag, hlast]
  cases hfound : tree.last? with
  | none => exact ⟨0, rfl, UInt64.zero_le⟩
  | some entry =>
      have hentry : entry ∈ tree.toList := List.mem_of_getLast? hfound
      rw [hrows] at hentry
      obtain ⟨⟨etag, p⟩, hrow, rfl⟩ := List.mem_map.1 hentry
      exact ⟨etag, Stored.word_big Layout.etagToKey etag, hs.etagAt_le ((hmem etag p).1 hrow)⟩

theorem index_lastEtag (h : t.trees.Shows c.ledger) (hs : c.Sound) (hr : c.Records serverId) :
    Index.lastEtag t = .ok c.lastEtag := by
  obtain ⟨etag, hindexed, hle⟩ := index_lastIndexedEtag h hs
  have hrecorded : Index.metadataWord t Layout.lastEtagKey = .ok c.lastEtag :=
    metadataWord_of_shows h hr.lastEtag
  have hmax : max c.lastEtag etag = c.lastEtag :=
    UInt64.le_antisymm (Std.max_le_iff.2 ⟨UInt64.le_refl _, hle⟩) Std.left_le_max
  rw [Index.lastEtag, hrecorded, hindexed]
  exact congrArg Except.ok hmax

end Catalog

namespace Opening

variable {c : Catalog} {t : Transaction} {serverId : ServerId}

theorem createTree_of_get? {name : String} {tree : Tree} (hmode : t.mode = .readWrite)
    (hget : t.trees.get? name = some tree) : t.createTree name tree.kind = .ok t := by
  rw [Transaction.createTree, Transaction.allow_readWrite hmode, hget]
  simp only [bind, Except.bind, if_true]
  rfl

/-- Every tree of the layout is there, and is of its kind. -/
def Complete (db : Database) : Prop :=
  ∀ tree ∈ Layout.trees, ∃ contents, db.get? tree.1 = some contents ∧ contents.kind = tree.2

/-- Trees that are in place are left alone. -/
theorem createTrees_of_complete (hmode : t.mode = .readWrite) (h : Complete t.trees) :
    createTrees t = .ok t := by
  have hfold : ∀ trees : List (String × TreeKind),
      (∀ tree ∈ trees, t.createTree tree.1 tree.2 = .ok t) →
      trees.foldlM (fun t tree => t.createTree tree.1 tree.2) t = .ok t := by
    intro trees
    induction trees with
    | nil => exact fun _ => rfl
    | cons tree rest ih =>
        intro hrest
        rw [List.foldlM_cons, hrest tree List.mem_cons_self]
        exact ih fun r hr => hrest r (.tail _ hr)
  refine hfold _ fun tree htree => ?_
  obtain ⟨contents, hget, hkind⟩ := h tree htree
  rw [← hkind]
  exact createTree_of_get? hmode hget

theorem complete_of_shows {db : Database} {L : Ledger} (h : db.Shows L) : Complete db := by
  have hplain : ∀ c : PlainColumn,
      ∃ contents, db.get? c.tree = some contents ∧ contents.kind = .plain := by
    intro c
    obtain ⟨tree, hget, _⟩ := h.plain c
    exact ⟨_, hget, rfl⟩
  have hmulti : ∀ c : MultiColumn,
      ∃ contents, db.get? c.tree = some contents ∧ contents.kind = .multi := by
    intro c
    obtain ⟨tree, hget, _⟩ := h.multi c
    exact ⟨_, hget, rfl⟩
  simp only [Complete, Layout.trees, List.forall_mem_cons, List.not_mem_nil, false_imp_iff,
    implies_true, and_true]
  exact ⟨hplain .metadata, hplain .values, hmulti .live, hmulti .deleted, hplain .names,
    hmulti .dates, hplain .places, hplain .etags, hplain .cursors⟩

/-- On no trees, every tree of the layout is created without entries. -/
theorem createTrees_empty : ∃ db : Database,
    createTrees ⟨.readWrite, .empty⟩ = .ok ⟨.readWrite, db⟩ ∧ db.Shows Catalog.bare.ledger := by
  refine ⟨_, rfl, ?_, ?_⟩
  · intro c
    cases c <;> exact ⟨.empty, rfl, .empty nofun⟩
  · intro c
    cases c
    case live => exact ⟨.empty, rfl, .empty fun _ _ h => nomatch h.1⟩
    case deleted => exact ⟨.empty, rfl, .empty fun _ _ h => nomatch h.1⟩
    case dates => exact ⟨.empty, rfl, .empty fun _ _ h => nomatch h.2⟩

theorem checkFormat_of_get
    (h : t.get Layout.metadata Layout.formatKey = .ok (some Layout.formatHeader)) :
    checkFormat t = .ok t := by
  rw [checkFormat, h]
  simp only [bind, Except.bind, if_true]
  rfl

/-- Trees without a format header get one. -/
theorem checkFormat_of_none (hmode : t.mode = .readWrite) (h : t.trees.Shows c.ledger)
    (hformat : c.metadata Layout.formatKey = none) :
    ∃ db : Database, checkFormat t = .ok { t with trees := db } ∧
      db.Shows (c.setMetadata Layout.formatKey Layout.formatHeader).ledger := by
  obtain ⟨db, hput, hdb⟩ := Transaction.put_of_shows hmode h .metadata Layout.formatKey
    Layout.formatHeader
  refine ⟨db, ?_, (c.ledger_setMetadata _ _).symm ▸ hdb⟩
  rw [checkFormat, Catalog.metadata_of_shows h, hformat]
  exact hput

theorem identify_of_get
    (h : t.get Layout.metadata Layout.serverIdKey = .ok (some serverId.bytes)) (id : ServerId) :
    identify t id = .ok (serverId, t) := by
  rw [identify, h]
  simp only [bind, Except.bind, ServerId.ofBytes?_bytes]
  rfl

/-- Trees without an id get this one. -/
theorem identify_of_none (hmode : t.mode = .readWrite) (h : t.trees.Shows c.ledger)
    (hserver : c.metadata Layout.serverIdKey = none) (id : ServerId) :
    ∃ db : Database, identify t id = .ok (id, { t with trees := db }) ∧
      db.Shows (c.setMetadata Layout.serverIdKey id.bytes).ledger := by
  obtain ⟨db, hput, hdb⟩ := Transaction.put_of_shows hmode h .metadata Layout.serverIdKey id.bytes
  refine ⟨db, ?_, (c.ledger_setMetadata _ _).symm ▸ hdb⟩
  have hput' : t.put Layout.metadata Layout.serverIdKey id.bytes = .ok { t with trees := db } :=
    hput
  rw [identify, Catalog.metadata_of_shows h, hserver]
  simp only [bind, Except.bind, hput']
  rfl

variable {opening : Opening} {store : Store}

/-- An opening that succeeds has a valid configuration and does not ask for the reserved id. -/
theorem valid_of_start {engine : Engine} (h : opening.start engine = .ok store) :
    opening.config.validate = .ok () ∧ opening.requested ≠ some .nil := by
  cases hvalid : opening.config.validate with
  | error e =>
      rw [start, hvalid] at h
      cases h
  | ok _ =>
      refine ⟨rfl, fun hnil => ?_⟩
      rw [start, hvalid, if_pos hnil] at h
      cases h

/-- What a store is made of that opens on these trees. -/
theorem start_eq {db : Database} {t₁ t₂ t₃ : Transaction} {counterId : CounterId} {etag : Etag}
    (hvalid : opening.config.validate = .ok ()) (hrequested : opening.requested ≠ some .nil)
    (hcreate : createTrees ⟨.readWrite, db⟩ = .ok t₁) (hformat : checkFormat t₁ = .ok t₂)
    (hid : identify t₂ (opening.requested.getD opening.fresh) = .ok (serverId, t₃))
    (hcounterId : Index.lastCounterId t₃ = .ok counterId) (hetag : Index.lastEtag t₃ = .ok etag) :
    opening.start (.ofDatabase db) = .ok {
      node := {
        serverId
        lastCounterId := counterId
        lastEtag := etag
        config := opening.config
        clock := opening.clock
        signal := opening.signal
        file := opening.file }
      engine := Engine.commit ⟨db, true⟩ t₃ } := by
  rw [start, hvalid, if_neg hrequested]
  have hbegin : (Engine.ofDatabase db).begin .readWrite = .ok (⟨.readWrite, db⟩, ⟨db, true⟩) := rfl
  rw [hbegin]
  simp only [bind, Except.bind, hcreate, hformat, hid, hcounterId, hetag]
  rfl

theorem serverId_ne_nil (hrequested : opening.requested ≠ some .nil)
    (hfresh : opening.fresh ≠ .nil) :
    opening.requested.getD opening.fresh ≠ .nil := by
  cases hreq : opening.requested with
  | none => exact hfresh
  | some id =>
      rintro rfl
      exact hrequested hreq

/-- On no trees a valid opening succeeds. The store has the requested or the fresh id and no
counters. -/
theorem exists_start_empty (hvalid : opening.config.validate = .ok ())
    (hrequested : opening.requested ≠ some .nil) (hfresh : opening.fresh ≠ .nil) :
    ∃ store, opening.start .empty = .ok store ∧
      store.Holds (opening.requested.getD opening.fresh)
        (.initial (opening.requested.getD opening.fresh)) := by
  obtain ⟨db₁, hcreate, hdb₁⟩ := createTrees_empty
  obtain ⟨db₂, hformat, hdb₂⟩ := checkFormat_of_none (t := ⟨.readWrite, db₁⟩) rfl hdb₁ rfl
  obtain ⟨db₃, hid, hdb₃⟩ := identify_of_none (t := ⟨.readWrite, db₂⟩) rfl hdb₂ (by
    rw [Catalog.metadata_setMetadata, Function.update_of_ne (by decide)]
    rfl) (opening.requested.getD opening.fresh)
  have hrecords := Catalog.initial_records (opening.requested.getD opening.fresh)
  have hsound := Catalog.initial_sound (opening.requested.getD opening.fresh)
  have hcounterId := Catalog.index_lastCounterId (t := ⟨.readWrite, db₃⟩) hdb₃ hrecords
  have hetag := Catalog.index_lastEtag (t := ⟨.readWrite, db₃⟩) hdb₃ hsound hrecords
  refine ⟨_, start_eq hvalid hrequested hcreate hformat hid hcounterId hetag, ?_⟩
  exact ⟨⟨hdb₃, hsound, hrecords, rfl, rfl, serverId_ne_nil hrequested hfresh⟩, rfl, rfl, hvalid⟩

theorem start_empty (h : opening.start .empty = .ok store) (hfresh : opening.fresh ≠ .nil) :
    store.Holds store.node.serverId (.initial store.node.serverId) := by
  obtain ⟨hvalid, hrequested⟩ := valid_of_start h
  obtain ⟨store', hstart, hholds⟩ := exists_start_empty hvalid hrequested hfresh
  obtain rfl := Except.ok.inj (h.symm.trans hstart)
  rw [hholds.serverId_eq]
  exact hholds

/-- A valid opening on the trees of another store succeeds: it has the id, the sequences and the
trees of that store. -/
theorem start_again_eq {db : Database} (hdb : db.Shows c.ledger) (hs : c.Sound)
    (hr : c.Records serverId) (hvalid : opening.config.validate = .ok ())
    (hrequested : opening.requested ≠ some .nil) :
    opening.start (.ofDatabase db) = .ok {
      node := {
        serverId
        lastCounterId := c.lastCounterId
        lastEtag := c.lastEtag
        config := opening.config
        clock := opening.clock
        signal := opening.signal
        file := opening.file }
      engine := .ofDatabase db } := by
  have hcreate : createTrees ⟨.readWrite, db⟩ = .ok ⟨.readWrite, db⟩ :=
    createTrees_of_complete rfl (complete_of_shows hdb)
  have hget : ∀ key, Transaction.get ⟨.readWrite, db⟩ Layout.metadata key = .ok (c.metadata key) :=
    Catalog.metadata_of_shows hdb
  have hformat : checkFormat ⟨.readWrite, db⟩ = .ok ⟨.readWrite, db⟩ :=
    checkFormat_of_get ((hget _).trans (congrArg Except.ok hr.format))
  have hid : identify ⟨.readWrite, db⟩ (opening.requested.getD opening.fresh) =
      .ok (serverId, ⟨.readWrite, db⟩) :=
    identify_of_get ((hget _).trans (congrArg Except.ok hr.server)) _
  have hcounterId := Catalog.index_lastCounterId (t := ⟨.readWrite, db⟩) hdb hr
  have hetag := Catalog.index_lastEtag (t := ⟨.readWrite, db⟩) hdb hs hr
  exact start_eq hvalid hrequested hcreate hformat hid hcounterId hetag

theorem start_again {db : Database} (hdb : db.Shows c.ledger) (hs : c.Sound)
    (hr : c.Records serverId) (hserver : serverId ≠ .nil)
    (h : opening.start (.ofDatabase db) = .ok store) : store.Holds serverId c := by
  obtain ⟨hvalid, hrequested⟩ := valid_of_start h
  obtain rfl := Except.ok.inj (h.symm.trans (start_again_eq hdb hs hr hvalid hrequested))
  exact ⟨⟨hdb, hs, hr, rfl, rfl, hserver⟩, rfl, rfl, hvalid⟩

end Opening

end CounterMesh
