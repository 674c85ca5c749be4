import CounterMesh.Proofs.Store.Ledger

/-!
# Primitive operations on a ledger

While its trees present a ledger, a transaction answers every query, and every
mutation of a read-write transaction changes one column. A writer on such a
transaction therefore never fails in a primitive operation. Its node stays as
it was when the writer was opened, but for its clock and its signal.
-/

namespace CounterMesh

namespace Transaction

variable {t : Transaction} {L : Ledger}

theorem plain_of_shows (h : t.trees.Shows L) (c : PlainColumn) :
    ∃ tree, t.plain c.tree = .ok tree ∧ tree.Presents c.keyCode c.valueCode (L.plain c) := by
  obtain ⟨tree, hget, htree⟩ := h.plain c
  refine ⟨tree, ?_, htree⟩
  rw [plain, Transaction.tree, hget]
  rfl

theorem multi_of_shows (h : t.trees.Shows L) (c : MultiColumn) :
    ∃ tree, t.multi c.tree = .ok tree ∧ tree.Presents c.keyCode c.valueCode (L.multi c) := by
  obtain ⟨tree, hget, htree⟩ := h.multi c
  refine ⟨tree, ?_, htree⟩
  rw [multi, Transaction.tree, hget]
  rfl

/-- A tree has this row: the value stands under the key. -/
def HasRow (t : Transaction) (tree : String) (key value : Bytes) : Prop :=
  match t.trees.get? tree with
  | some (.plain entries) => entries.get? key = some value
  | some (.multi entries) => entries.holds key value = true
  | none => False

theorem hasRow_plain (h : t.trees.Shows L) (c : PlainColumn) {key value : Bytes} :
    t.HasRow c.tree key value ↔
      ∃ x y, c.keyCode.bytes x = key ∧ c.valueCode.bytes y = value ∧ L.plain c x y := by
  obtain ⟨tree, hget, htree⟩ := h.plain c
  rw [HasRow, hget]
  exact htree key value

theorem hasRow_multi (h : t.trees.Shows L) (c : MultiColumn) {key value : Bytes} :
    t.HasRow c.tree key value ↔
      ∃ x y, c.keyCode.bytes x = key ∧ c.valueCode.bytes y = value ∧ L.multi c x y := by
  obtain ⟨tree, hget, htree⟩ := h.multi c
  rw [HasRow, hget]
  exact htree.holds_iff key value

theorem get_of_shows (h : t.trees.Shows L) (c : PlainColumn) (x : c.Key) :
    ∃ found : Option c.Value,
      t.get c.tree (c.keyCode.bytes x) = .ok (found.map c.valueCode.bytes) ∧
      ∀ y, found = some y ↔ L.plain c x y := by
  obtain ⟨tree, hplain, htree⟩ := plain_of_shows h c
  obtain ⟨found, hget, hfound⟩ := htree.finds x
  refine ⟨found, ?_, hfound⟩
  rw [get, hplain, ← hget]
  rfl

/-- What a tree answers about a key, whether or not the key is one of its codes. -/
theorem get_eq_some_iff (h : t.trees.Shows L) (c : PlainColumn) {key value : Bytes} :
    t.get c.tree key = .ok (some value) ↔
      ∃ x y, c.keyCode.bytes x = key ∧ c.valueCode.bytes y = value ∧ L.plain c x y := by
  obtain ⟨tree, hplain, htree⟩ := plain_of_shows h c
  have hget : t.get c.tree key = .ok (tree.get? key) := by
    rw [get, hplain]
    rfl
  rw [hget, Except.ok.injEq]
  exact htree key value

/-- The rows of a plain tree, counted and listed from a key on. -/
theorem scanFrom_of_shows (h : t.trees.Shows L) (c : PlainColumn) :
    ∃ rows : List (c.Key × c.Value),
      (rows.Pairwise fun a b => compare (c.keyCode.bytes a.1) (c.keyCode.bytes b.1) = .lt) ∧
      (∀ x y, (x, y) ∈ rows ↔ L.plain c x y) ∧
      t.entryCount c.tree = .ok rows.length ∧
      ∀ start, t.scanFrom c.tree start =
        .ok ((rows.filter fun row => !(compare (c.keyCode.bytes row.1) start == .lt)).map
          fun row => (c.keyCode.bytes row.1, c.valueCode.bytes row.2)) := by
  obtain ⟨tree, hget, htree⟩ := h.plain c
  obtain ⟨rows, hrows, hmem⟩ := htree.rows
  have htree' : t.tree c.tree = .ok (.plain tree) := by rw [Transaction.tree, hget]
  refine ⟨rows, ?_, hmem, ?_, fun start => ?_⟩
  · have hsorted := tree.sorted
    rwa [hrows, List.pairwise_map] at hsorted
  · have hsize : (Tree.plain tree).size = rows.length := by
      rw [Tree.size, OrdMap.size, hrows, List.length_map]
    rw [entryCount, htree', ← hsize]
    rfl
  · have hfilter : tree.toList.filter (fun e => !(compare e.1 start == .lt)) =
        (rows.filter fun row => !(compare (c.keyCode.bytes row.1) start == .lt)).map
          fun row => (c.keyCode.bytes row.1, c.valueCode.bytes row.2) := by
      rw [hrows, List.filter_map]
      rfl
    rw [scanFrom, plain, htree', ← hfilter, ← OrdMap.entriesFrom_eq_filter]
    rfl

theorem scanStarting_of_shows (h : t.trees.Shows L) (c : PlainColumn) (stem : Bytes) :
    ∃ rows : List (c.Key × c.Value),
      t.scanStarting c.tree stem =
        .ok (rows.map fun row => (c.keyCode.bytes row.1, c.valueCode.bytes row.2)) ∧
      ∀ x y, (x, y) ∈ rows ↔ L.plain c x y ∧ stem <+: c.keyCode.bytes x := by
  obtain ⟨tree, hplain, htree⟩ := plain_of_shows h c
  obtain ⟨rows, hrows, hmem⟩ := htree.rows
  refine ⟨rows.filter fun row => stem.isPrefixOf (c.keyCode.bytes row.1), ?_, fun x y => ?_⟩
  · have hfilter : tree.toList.filter (fun e => stem.isPrefixOf e.1) =
        (rows.filter fun row => stem.isPrefixOf (c.keyCode.bytes row.1)).map
          fun row => (c.keyCode.bytes row.1, c.valueCode.bytes row.2) := by
      rw [hrows, List.filter_map]
      rfl
    rw [scanStarting, hplain, ← hfilter, ← OrdMap.entriesStarting_eq_filter]
    rfl
  · rw [List.mem_filter, hmem, List.isPrefixOf_iff_prefix]

theorem valuesStarting_of_shows (h : t.trees.Shows L) (c : MultiColumn) (x : c.Key)
    (stem : Bytes) :
    ∃ rows : List c.Value,
      t.valuesStarting c.tree (c.keyCode.bytes x) stem = .ok (rows.map c.valueCode.bytes) ∧
      ∀ y, y ∈ rows ↔ L.multi c x y ∧ stem <+: c.valueCode.bytes y := by
  obtain ⟨tree, hmulti, htree⟩ := multi_of_shows h c
  obtain ⟨rows, hrows, hmem⟩ := htree.valuesOf_rows x
  refine ⟨rows.filter fun y => stem.isPrefixOf (c.valueCode.bytes y), ?_, fun y => ?_⟩
  · have hvalues : ((MultiTree.valuesOf tree (c.keyCode.bytes x)).entriesStarting stem).map (·.1) =
        (rows.filter fun y => stem.isPrefixOf (c.valueCode.bytes y)).map c.valueCode.bytes := by
      rw [OrdMap.entriesStarting_eq_filter, hrows, List.filter_map, List.map_map]
      rfl
    rw [valuesStarting, hmulti, ← hvalues]
    rfl
  · rw [List.mem_filter, hmem, List.isPrefixOf_iff_prefix]

/-- The values under a key are listed and counted alike. -/
theorem valueCount_of_shows (h : t.trees.Shows L) (c : MultiColumn) (x : c.Key) :
    ∃ rows : List c.Value,
      t.valuesStarting c.tree (c.keyCode.bytes x) [] = .ok (rows.map c.valueCode.bytes) ∧
      t.valueCount c.tree (c.keyCode.bytes x) = .ok rows.length ∧
      ∀ y, y ∈ rows ↔ L.multi c x y := by
  obtain ⟨tree, hmulti, htree⟩ := multi_of_shows h c
  obtain ⟨rows, hrows, hmem⟩ := htree.valuesOf_rows x
  refine ⟨rows, ?_, ?_, hmem⟩
  · have hvalues : ((MultiTree.valuesOf tree (c.keyCode.bytes x)).entriesStarting []).map (·.1) =
        rows.map c.valueCode.bytes := by
      rw [OrdMap.entriesStarting_nil, hrows, List.map_map]
      rfl
    rw [valuesStarting, hmulti, ← hvalues]
    rfl
  · have hsize : (MultiTree.valuesOf tree (c.keyCode.bytes x)).size = rows.length := by
      rw [OrdMap.size, hrows, List.length_map]
    rw [valueCount, hmulti, ← hsize]
    rfl

/-- The keys of a multi tree are listed and counted alike. -/
theorem keysFrom_of_shows (h : t.trees.Shows L) (c : MultiColumn) :
    ∃ rows : List c.Key, t.keysFrom c.tree [] = .ok (rows.map c.keyCode.bytes) ∧
      t.entryCount c.tree = .ok rows.length ∧ ∀ x, x ∈ rows ↔ ∃ y, L.multi c x y := by
  obtain ⟨tree, hget, htree⟩ := h.multi c
  obtain ⟨rows, hrows, hmem⟩ := htree.keys_rows
  have htree' : t.tree c.tree = .ok (.multi tree) := by rw [Transaction.tree, hget]
  refine ⟨rows, ?_, ?_, hmem⟩
  · rw [keysFrom, multi, htree', ← hrows, OrdMap.keys, ← tree.entriesFrom_nil]
    rfl
  · have hsize : (Tree.multi tree).size = rows.length := by
      rw [Tree.size, OrdMap.size, ← List.length_map Prod.fst, ← OrdMap.keys, hrows,
        List.length_map]
    rw [entryCount, htree', ← hsize]
    rfl

theorem pairsFrom_of_shows (h : t.trees.Shows L) (c : MultiColumn) :
    ∃ rows : List (c.Key × c.Value),
      t.pairsFrom c.tree [] =
        .ok (rows.map fun row => (c.keyCode.bytes row.1, c.valueCode.bytes row.2)) ∧
      (rows.Pairwise fun a b => compare (c.keyCode.bytes a.1) (c.keyCode.bytes b.1) = .lt ∨
        c.keyCode.bytes a.1 = c.keyCode.bytes b.1 ∧
          compare (c.valueCode.bytes a.2) (c.valueCode.bytes b.2) = .lt) ∧
      ∀ x y, (x, y) ∈ rows ↔ L.multi c x y := by
  obtain ⟨tree, hmulti, htree⟩ := multi_of_shows h c
  obtain ⟨rows, hrows, hmem⟩ := htree.pairs_rows
  have hsorted := MultiTree.sorted_pairs tree
  rw [hrows, List.pairwise_map] at hsorted
  refine ⟨rows, ?_, hsorted, hmem⟩
  rw [pairsFrom, hmulti, ← hrows, ← tree.entriesFrom_nil]
  rfl

section Same

variable {t' : Transaction} {L' : Ledger} (h : t.trees.Shows L) (h' : t'.trees.Shows L')

include h h'

/-- Trees that hold the same under a key answer alike about it. -/
theorem get_congr (c : PlainColumn) {key : Bytes}
    (hc : ∀ x y, c.keyCode.bytes x = key → (L.plain c x y ↔ L'.plain c x y)) :
    t.get c.tree key = t'.get c.tree key := by
  obtain ⟨tree, hplain, htree⟩ := plain_of_shows h c
  obtain ⟨tree', hplain', htree'⟩ := plain_of_shows h' c
  have hget : tree.get? key = tree'.get? key := by
    refine Option.ext fun value => ?_
    rw [htree, htree']
    exact exists₂_congr fun x y => and_congr_right fun hx => and_congr_right fun _ => hc x y hx
  rw [get, get, hplain, hplain']
  exact congrArg Except.ok hget

/-- Trees that hold the same under the keys with a stem list the same rows for it. -/
theorem scanStarting_congr (c : PlainColumn) {stem : Bytes}
    (hc : ∀ x y, stem <+: c.keyCode.bytes x → (L.plain c x y ↔ L'.plain c x y)) :
    t.scanStarting c.tree stem = t'.scanStarting c.tree stem := by
  obtain ⟨tree, hplain, htree⟩ := plain_of_shows h c
  obtain ⟨tree', hplain', htree'⟩ := plain_of_shows h' c
  have hrows : tree.entriesStarting stem = tree'.entriesStarting stem := by
    refine OrdMap.entriesStarting_congr fun key value hstem => ?_
    rw [htree, htree']
    refine exists₂_congr fun x y => and_congr_right fun hx => and_congr_right fun _ => hc x y ?_
    exact hx ▸ hstem
  rw [scanStarting, scanStarting, hplain, hplain']
  exact congrArg Except.ok hrows

/-- Trees that hold the same values with a stem list the same of them under every key. -/
theorem valuesStarting_congr (c : MultiColumn) (key : Bytes) {stem : Bytes}
    (hc : ∀ x y, stem <+: c.valueCode.bytes y → (L.multi c x y ↔ L'.multi c x y)) :
    t.valuesStarting c.tree key stem = t'.valuesStarting c.tree key stem := by
  obtain ⟨tree, hmulti, htree⟩ := multi_of_shows h c
  obtain ⟨tree', hmulti', htree'⟩ := multi_of_shows h' c
  have hrows : (MultiTree.valuesOf tree key).entriesStarting stem =
      (MultiTree.valuesOf tree' key).entriesStarting stem := by
    refine OrdMap.entriesStarting_congr fun value _ hstem => ?_
    rw [← MultiTree.holds_iff_get?, ← MultiTree.holds_iff_get?, htree.holds_iff, htree'.holds_iff]
    refine exists₂_congr fun x y => and_congr_right fun _ => and_congr_right fun hy => hc x y ?_
    exact hy ▸ hstem
  rw [valuesStarting, valuesStarting, hmulti, hmulti']
  exact congrArg (fun rows => Except.ok (rows.map (·.1))) hrows

end Same

theorem allow_readWrite (hmode : t.mode = .readWrite) (mutation : Mutation) :
    t.allow mutation = .ok () := by
  rw [allow, hmode]

theorem put_of_shows (hmode : t.mode = .readWrite) (h : t.trees.Shows L) (c : PlainColumn)
    (x : c.Key) (y : c.Value) :
    ∃ db : Database, t.put c.tree (c.keyCode.bytes x) (c.valueCode.bytes y) =
        .ok { t with trees := db } ∧
      db.Shows (L.setPlain c ((L.plain c).assign x y)) := by
  obtain ⟨tree, hplain, htree⟩ := plain_of_shows h c
  refine ⟨_, ?_, h.setPlain (htree.insert x y)⟩
  rw [put, allow_readWrite hmode, hplain]
  rfl

theorem delete_of_shows (hmode : t.mode = .readWrite) (h : t.trees.Shows L) (c : PlainColumn)
    (x : c.Key) :
    ∃ (removed : Bool) (db : Database),
      t.delete c.tree (c.keyCode.bytes x) = .ok (removed, { t with trees := db }) ∧
      db.Shows (L.setPlain c ((L.plain c).clear x)) := by
  obtain ⟨tree, hplain, htree⟩ := plain_of_shows h c
  refine ⟨tree.contains (c.keyCode.bytes x), _, ?_, h.setPlain (htree.erase x)⟩
  rw [delete, allow_readWrite hmode, hplain]
  rfl

/-- A missing value counts as zero. -/
theorem increment_of_shows (hmode : t.mode = .readWrite) (h : t.trees.Shows L) (p : Place)
    (delta : Int64) :
    ∃ (found : Option Int64) (next : Int64) (db : Database),
      t.increment Layout.counters p.bytes delta = .ok (next, { t with trees := db }) ∧
      (∀ value, found = some value ↔ L.plain .values p value) ∧
      db.Shows (L.setPlain .values ((L.plain .values).assign p (found.getD 0 + delta))) := by
  obtain ⟨tree, hplain, htree⟩ := plain_of_shows h .values
  obtain ⟨found, hget, hfound⟩ := htree.finds p
  refine ⟨found, found.getD 0 + delta, _, ?_, hfound, h.setPlain (htree.insert p _)⟩
  have hplain' : t.plain Layout.counters = .ok tree := hplain
  have hget' : OrdMap.get? tree p.bytes = found.map Word.little := hget
  rw [increment, allow_readWrite hmode, hplain']
  simp only [bind, Except.bind, hget']
  cases found with
  | none => rfl
  | some current =>
      simp only [Option.map_some, Word.little?_little]
      rfl

theorem multiAdd_of_shows (hmode : t.mode = .readWrite) (h : t.trees.Shows L)
    (c : MultiColumn) (x : c.Key) (y : c.Value) :
    ∃ db : Database, t.multiAdd c.tree (c.keyCode.bytes x) (c.valueCode.bytes y) =
        .ok { t with trees := db } ∧
      db.Shows (L.setMulti c ((L.multi c).add x y)) := by
  obtain ⟨tree, hmulti, htree⟩ := multi_of_shows h c
  refine ⟨_, ?_, h.setMulti (htree.add x y)⟩
  rw [multiAdd, allow_readWrite hmode, hmulti]
  rfl

theorem multiDelete_of_shows (hmode : t.mode = .readWrite) (h : t.trees.Shows L)
    (c : MultiColumn) (x : c.Key) (y : c.Value) :
    ∃ (removed : Bool) (db : Database),
      t.multiDelete c.tree (c.keyCode.bytes x) (c.valueCode.bytes y) =
        .ok (removed, { t with trees := db }) ∧
      db.Shows (L.setMulti c ((L.multi c).discard x y)) := by
  obtain ⟨tree, hmulti, htree⟩ := multi_of_shows h c
  refine ⟨tree.holds (c.keyCode.bytes x) (c.valueCode.bytes y), _, ?_,
    h.setMulti (htree.remove x y)⟩
  rw [multiDelete, allow_readWrite hmode, hmulti]
  rfl

end Transaction

/-- A writer is open on trees that present the ledger, on a node that was `home` when the writer
was opened. -/
structure Session.Shows (s : Session) (home : Node) (L : Ledger) : Prop where
  mode : s.writer.transaction.mode = .readWrite
  trees : s.writer.transaction.trees.Shows L
  lastEtag : s.writer.lastEtag = L.lastEtag
  lastCounterId : s.writer.lastCounterId = L.lastCounterId
  node : s.node = { home with clock := s.node.clock, signal := s.node.signal }

namespace Session.Shows

variable {s : Session} {home : Node} {L : Ledger}

theorem serverId_eq (h : s.Shows home L) : s.node.serverId = home.serverId := by
  rw [h.node]

theorem config_eq (h : s.Shows home L) : s.node.config = home.config := by
  rw [h.node]

theorem withTrees (h : s.Shows home L) {db : Database} {L' : Ledger} (hdb : db.Shows L')
    (hetag : L'.lastEtag = L.lastEtag) (hid : L'.lastCounterId = L.lastCounterId) :
    Session.Shows { s with writer :=
      { s.writer with transaction := { s.writer.transaction with trees := db } } } home L' where
  mode := h.mode
  trees := hdb
  lastEtag := h.lastEtag.trans hetag.symm
  lastCounterId := h.lastCounterId.trans hid.symm
  node := h.node

theorem withSignal (h : s.Shows home L) (signal : Signal) :
    Session.Shows { s with node := { s.node with signal } } home L where
  mode := h.mode
  trees := h.trees
  lastEtag := h.lastEtag
  lastCounterId := h.lastCounterId
  node := congrArg (fun node => { node with signal }) h.node

theorem withClock (h : s.Shows home L) (clock : Clock) :
    Session.Shows { s with node := { s.node with clock } } home L where
  mode := h.mode
  trees := h.trees
  lastEtag := h.lastEtag
  lastCounterId := h.lastCounterId
  node := congrArg (fun node => { node with clock }) h.node

theorem withChanges (h : s.Shows home L) (changes : List Change) :
    Session.Shows { s with writer := { s.writer with changes } } home L where
  mode := h.mode
  trees := h.trees
  lastEtag := h.lastEtag
  lastCounterId := h.lastCounterId
  node := h.node

end Session.Shows

namespace Write

variable {α : Type} {s : Session} {home : Node} {L : Ledger}

theorem returns_get (h : s.Shows home L) (c : PlainColumn) (x : c.Key) :
    Returns (query fun t => t.get c.tree (c.keyCode.bytes x)) s fun answer s' => s' = s ∧
      ∃ found : Option c.Value, answer = found.map c.valueCode.bytes ∧
        ∀ y, found = some y ↔ L.plain c x y := by
  obtain ⟨found, hget, hfound⟩ := Transaction.get_of_shows h.trees c x
  refine (returns_query hget).mono ?_
  rintro _ _ ⟨rfl, rfl⟩
  exact ⟨rfl, found, rfl, hfound⟩

theorem returns_put (h : s.Shows home L) (c : PlainColumn) (x : c.Key) (y : c.Value) :
    Returns (mutate fun t => t.put c.tree (c.keyCode.bytes x) (c.valueCode.bytes y)) s
      fun _ s' => s'.Shows home (L.setPlain c ((L.plain c).assign x y)) := by
  obtain ⟨db, hput, hdb⟩ := Transaction.put_of_shows h.mode h.trees c x y
  refine (returns_mutate hput).mono ?_
  rintro _ _ rfl
  exact h.withTrees hdb rfl rfl

theorem returns_delete (h : s.Shows home L) (c : PlainColumn) (x : c.Key) :
    Returns (remove fun t => t.delete c.tree (c.keyCode.bytes x)) s
      fun _ s' => s'.Shows home (L.setPlain c ((L.plain c).clear x)) := by
  obtain ⟨removed, db, hdelete, hdb⟩ := Transaction.delete_of_shows h.mode h.trees c x
  refine (returns_remove hdelete).mono ?_
  rintro _ _ rfl
  exact h.withTrees hdb rfl rfl

theorem returns_increment (h : s.Shows home L) (p : Place) (delta : Int64) :
    Returns (mutate fun t => return (← t.increment Layout.counters p.bytes delta).2) s
      fun _ s' => ∃ found : Option Int64,
        (∀ value, found = some value ↔ L.plain .values p value) ∧
        s'.Shows home (L.setPlain .values ((L.plain .values).assign p (found.getD 0 + delta))) := by
  obtain ⟨found, next, db, hincrement, hfound, hdb⟩ :=
    Transaction.increment_of_shows h.mode h.trees p delta
  refine (returns_mutate (t := { s.writer.transaction with trees := db }) ?_).mono ?_
  · rw [hincrement]
    rfl
  · rintro _ _ rfl
    exact ⟨found, hfound, h.withTrees hdb rfl rfl⟩

theorem returns_multiAdd (h : s.Shows home L) (c : MultiColumn) (x : c.Key) (y : c.Value) :
    Returns (mutate fun t => t.multiAdd c.tree (c.keyCode.bytes x) (c.valueCode.bytes y)) s
      fun _ s' => s'.Shows home (L.setMulti c ((L.multi c).add x y)) := by
  obtain ⟨db, hadd, hdb⟩ := Transaction.multiAdd_of_shows h.mode h.trees c x y
  refine (returns_mutate hadd).mono ?_
  rintro _ _ rfl
  exact h.withTrees hdb rfl rfl

theorem returns_multiDelete (h : s.Shows home L) (c : MultiColumn) (x : c.Key) (y : c.Value) :
    Returns (remove fun t => t.multiDelete c.tree (c.keyCode.bytes x) (c.valueCode.bytes y)) s
      fun _ s' => s'.Shows home (L.setMulti c ((L.multi c).discard x y)) := by
  obtain ⟨removed, db, hdelete, hdb⟩ := Transaction.multiDelete_of_shows h.mode h.trees c x y
  refine (returns_remove hdelete).mono ?_
  rintro _ _ rfl
  exact h.withTrees hdb rfl rfl

end Write

namespace Ledger

/-- The ledger with the next etag taken, which is recorded in the metadata. -/
def takeEtag (L : Ledger) : Ledger :=
  { L.setPlain .metadata
      ((L.plain .metadata).assign Layout.lastEtagKey (Word.big (L.lastEtag + 1))) with
    lastEtag := L.lastEtag + 1 }

/-- The ledger with the next counter id taken, which is recorded in the metadata. -/
def takeCounterId (L : Ledger) : Ledger :=
  { L.setPlain .metadata
      ((L.plain .metadata).assign Layout.lastCounterIdKey (Word.big (L.lastCounterId + 1))) with
    lastCounterId := L.lastCounterId + 1 }

end Ledger

namespace Sequence

/-- The last number that the ledger has. -/
def lastIn : Sequence → Ledger → UInt64
  | etag, L => L.lastEtag
  | counterId, L => L.lastCounterId

/-- The ledger with another number as the last. -/
def moveIn : Sequence → UInt64 → Ledger → Ledger
  | etag, number, L => { L with lastEtag := number }
  | counterId, number, L => { L with lastCounterId := number }

/-- The ledger with the next number taken. -/
def take : Sequence → Ledger → Ledger
  | etag, L => L.takeEtag
  | counterId, L => L.takeCounterId

end Sequence

variable {s : Session} {home : Node} {L : Ledger}

theorem Session.Shows.last_eq (h : s.Shows home L) (q : Sequence) :
    q.last s.writer = q.lastIn L := by
  cases q with
  | etag => exact h.lastEtag
  | counterId => exact h.lastCounterId

theorem Session.Shows.move (h : s.Shows home L) (q : Sequence) (number : UInt64) :
    Session.Shows { s with writer := q.move number s.writer } home (q.moveIn number L) := by
  cases q with
  | etag => exact { h with lastEtag := rfl, trees := ⟨h.trees.plain, h.trees.multi⟩ }
  | counterId => exact { h with lastCounterId := rfl, trees := ⟨h.trees.plain, h.trees.multi⟩ }

theorem Write.returns_next (h : s.Shows home L) (q : Sequence) :
    Returns q.next s fun number s' => number = q.lastIn L + 1 ∧ s'.Shows home (q.take L) := by
  refine Returns.get.bind ?_
  rintro _ s ⟨rfl, rfl⟩
  rw [h.last_eq q]
  refine (Returns.modify _).bind ?_
  rintro _ _ rfl
  refine (returns_put (h.move q _) .metadata q.key (Word.big (q.lastIn L + 1))).bind ?_
  intro _ s' h'
  refine .pure ⟨rfl, ?_⟩
  cases q with
  | etag => exact h'
  | counterId => exact h'

end CounterMesh
