import CounterMesh.Proofs.Engine.Presents
import CounterMesh.Proofs.Store.Returns
import Mathlib.Logic.Function.Basic

/-!
# Ledgers

A ledger says what each tree of a store presents, and how far the sequences of
the writer have come. The columns of a ledger are the trees of the layout, each
with its code for keys and its code for values. A primitive operation of a
writer then changes one column at one pair, whichever tree it works on.
-/

namespace CounterMesh

/-- The plain trees of a store. -/
inductive PlainColumn where
  | metadata
  /-- The values of the slots. -/
  | values
  /-- The groups of the counters, by id and name. -/
  | names
  /-- The slots by their etags. -/
  | places
  /-- The etags of the slots. -/
  | etags
  | cursors
  deriving DecidableEq

/-- The multi trees of a store. -/
inductive MultiColumn where
  /-- The live counters of the groups. -/
  | live
  /-- The deleted counters of the groups. -/
  | deleted
  /-- The tombstones by their dates. -/
  | dates
  deriving DecidableEq

namespace PlainColumn

abbrev Key : PlainColumn → Type
  | metadata => Bytes
  | values => Place
  | names => CounterId × String
  | places => Etag
  | etags => Place
  | cursors => ServerId

abbrev Value : PlainColumn → Type
  | metadata => Bytes
  | values => Int64
  | names => String
  | places => Place
  | etags => Etag
  | cursors => Etag

/-- The name of the tree. -/
def tree : PlainColumn → String
  | metadata => Layout.metadata
  | values => Layout.counters
  | names => Layout.counterNames
  | places => Layout.etagToKey
  | etags => Layout.keyToEtag
  | cursors => Layout.peerEtags

def keyCode : (c : PlainColumn) → Code c.Key
  | metadata => .raw
  | values => .place
  | names => .nameKey
  | places => .word
  | etags => .place
  | cursors => .server

def valueCode : (c : PlainColumn) → Code c.Value
  | metadata => .raw
  | values => .value
  | names => .text
  | places => .place
  | etags => .word
  | cursors => .word

theorem tree_injective : Function.Injective tree := by
  intro c d h
  cases c <;> cases d <;> first | rfl | exact absurd h (by decide)

end PlainColumn

namespace MultiColumn

abbrev Key : MultiColumn → Type
  | live => String
  | deleted => String
  | dates => Int64

abbrev Value : MultiColumn → Type
  | live => String × CounterId
  | deleted => String × CounterId
  | dates => Place

/-- The name of the tree. -/
def tree : MultiColumn → String
  | live => Layout.groupCounters
  | deleted => Layout.tombstonedGroupCounters
  | dates => Layout.tombstonesByDate

def keyCode : (c : MultiColumn) → Code c.Key
  | live => .text
  | deleted => .text
  | dates => .date

def valueCode : (c : MultiColumn) → Code c.Value
  | live => .groupEntry
  | deleted => .groupEntry
  | dates => .place

theorem tree_injective : Function.Injective tree := by
  intro c d h
  cases c <;> cases d <;> first | rfl | exact absurd h (by decide)

theorem tree_ne_plain (c : MultiColumn) (d : PlainColumn) : c.tree ≠ d.tree := by
  cases c <;> cases d <;> decide

end MultiColumn

/-- What the trees of a store present, and the sequences of the writer. -/
structure Ledger where
  plain : (c : PlainColumn) → Pairs c.Key c.Value
  multi : (c : MultiColumn) → Pairs c.Key c.Value
  lastEtag : Etag
  lastCounterId : CounterId

namespace Ledger

variable (L : Ledger)

/-- The ledger with a plain column replaced. -/
def setPlain (c : PlainColumn) (pairs : Pairs c.Key c.Value) : Ledger :=
  { L with plain := Function.update L.plain c pairs }

/-- The ledger with a multi column replaced. -/
def setMulti (c : MultiColumn) (pairs : Pairs c.Key c.Value) : Ledger :=
  { L with multi := Function.update L.multi c pairs }

@[ext] theorem ext_iff_pairs {L L' : Ledger}
    (plain : ∀ c x y, L.plain c x y ↔ L'.plain c x y)
    (multi : ∀ c x y, L.multi c x y ↔ L'.multi c x y)
    (lastEtag : L.lastEtag = L'.lastEtag) (lastCounterId : L.lastCounterId = L'.lastCounterId) :
    L = L' := by
  have hplain : L.plain = L'.plain := by
    funext c x y
    exact propext (plain c x y)
  have hmulti : L.multi = L'.multi := by
    funext c x y
    exact propext (multi c x y)
  cases L
  cases L'
  cases hplain
  cases hmulti
  cases lastEtag
  cases lastCounterId
  rfl

variable {c d : PlainColumn} {pairs : Pairs c.Key c.Value}

@[simp] theorem plain_setPlain_self : (L.setPlain c pairs).plain c = pairs :=
  Function.update_self ..

@[simp] theorem plain_setPlain_of_ne (h : d ≠ c) : (L.setPlain c pairs).plain d = L.plain d :=
  Function.update_of_ne h ..

theorem setPlain_congr {pairs' : Pairs c.Key c.Value} (h : ∀ x y, pairs x y ↔ pairs' x y) :
    L.setPlain c pairs = L.setPlain c pairs' := by
  have hpairs : pairs = pairs' := by
    funext x y
    exact propext (h x y)
  rw [hpairs]

theorem setPlain_eq_self (h : ∀ x y, pairs x y ↔ L.plain c x y) : L.setPlain c pairs = L := by
  rw [L.setPlain_congr h]
  exact congrArg (fun plain => { L with plain }) (Function.update_eq_self c L.plain)

@[simp] theorem multi_setPlain : (L.setPlain c pairs).multi = L.multi := rfl

@[simp] theorem lastEtag_setPlain : (L.setPlain c pairs).lastEtag = L.lastEtag := rfl

@[simp] theorem lastCounterId_setPlain :
    (L.setPlain c pairs).lastCounterId = L.lastCounterId := rfl

variable {m n : MultiColumn} {values : Pairs m.Key m.Value}

@[simp] theorem multi_setMulti_self : (L.setMulti m values).multi m = values :=
  Function.update_self ..

@[simp] theorem multi_setMulti_of_ne (h : n ≠ m) : (L.setMulti m values).multi n = L.multi n :=
  Function.update_of_ne h ..

theorem setMulti_congr {values' : Pairs m.Key m.Value} (h : ∀ x y, values x y ↔ values' x y) :
    L.setMulti m values = L.setMulti m values' := by
  have hvalues : values = values' := by
    funext x y
    exact propext (h x y)
  rw [hvalues]

theorem setMulti_eq_self (h : ∀ x y, values x y ↔ L.multi m x y) : L.setMulti m values = L := by
  rw [L.setMulti_congr h]
  exact congrArg (fun multi => { L with multi }) (Function.update_eq_self m L.multi)

@[simp] theorem plain_setMulti : (L.setMulti m values).plain = L.plain := rfl

@[simp] theorem lastEtag_setMulti : (L.setMulti m values).lastEtag = L.lastEtag := rfl

@[simp] theorem lastCounterId_setMulti :
    (L.setMulti m values).lastCounterId = L.lastCounterId := rfl

end Ledger

/-- The trees present the columns of the ledger. -/
structure Database.Shows (db : Database) (L : Ledger) : Prop where
  plain : ∀ c : PlainColumn, ∃ tree, db.get? c.tree = some (.plain tree) ∧
    tree.Presents c.keyCode c.valueCode (L.plain c)
  multi : ∀ c : MultiColumn, ∃ tree, db.get? c.tree = some (.multi tree) ∧
    tree.Presents c.keyCode c.valueCode (L.multi c)

namespace Database.Shows

variable {db : Database} {L : Ledger}

theorem setPlain (h : db.Shows L) {c : PlainColumn} {tree : PlainTree}
    {pairs : Pairs c.Key c.Value} (ht : tree.Presents c.keyCode c.valueCode pairs) :
    Database.Shows (db.insert c.tree (.plain tree)) (L.setPlain c pairs) where
  plain := by
    intro d
    by_cases hd : d = c
    · subst hd
      exact ⟨tree, OrdMap.get?_insert_self _ _ _, by simpa using ht⟩
    · rw [OrdMap.get?_insert_of_ne _ _ fun heq => hd (PlainColumn.tree_injective heq),
        L.plain_setPlain_of_ne hd]
      exact h.plain d
  multi := by
    intro d
    rw [OrdMap.get?_insert_of_ne _ _ (d.tree_ne_plain c)]
    exact h.multi d

theorem setMulti (h : db.Shows L) {c : MultiColumn} {tree : MultiTree}
    {pairs : Pairs c.Key c.Value} (ht : tree.Presents c.keyCode c.valueCode pairs) :
    Database.Shows (db.insert c.tree (.multi tree)) (L.setMulti c pairs) where
  plain := by
    intro d
    rw [OrdMap.get?_insert_of_ne _ _ (c.tree_ne_plain d).symm]
    exact h.plain d
  multi := by
    intro d
    by_cases hd : d = c
    · subst hd
      exact ⟨tree, OrdMap.get?_insert_self _ _ _, by simpa using ht⟩
    · rw [OrdMap.get?_insert_of_ne _ _ fun heq => hd (MultiColumn.tree_injective heq),
        L.multi_setMulti_of_ne hd]
      exact h.multi d

/-- Equal trees present the same column. -/
theorem plain_iff_of_get?_eq {db' : Database} {L' : Ledger} (h : db.Shows L) (h' : db'.Shows L')
    {c : PlainColumn} (heq : db.get? c.tree = db'.get? c.tree) (x : c.Key) (y : c.Value) :
    L.plain c x y ↔ L'.plain c x y := by
  obtain ⟨tree, hget, htree⟩ := h.plain c
  obtain ⟨tree', hget', htree'⟩ := h'.plain c
  rw [hget, hget'] at heq
  obtain rfl : tree = tree' := Tree.plain.inj (Option.some.inj heq)
  exact htree.get?.symm.trans htree'.get?

/-- The trees determine what they present. -/
theorem plain_iff {L' : Ledger} (h : db.Shows L) (h' : db.Shows L') (c : PlainColumn) (x : c.Key)
    (y : c.Value) : L.plain c x y ↔ L'.plain c x y :=
  h.plain_iff_of_get?_eq h' rfl x y

/-- Trees that present the same column are equal. -/
theorem get?_plain_eq {db' : Database} {L' : Ledger} (h : db.Shows L) (h' : db'.Shows L')
    {c : PlainColumn} (hc : L.plain c = L'.plain c) : db.get? c.tree = db'.get? c.tree := by
  obtain ⟨tree, hget, htree⟩ := h.plain c
  obtain ⟨tree', hget', htree'⟩ := h'.plain c
  rw [hget, hget', htree.tree_unique (hc ▸ htree')]

theorem get?_multi_eq {db' : Database} {L' : Ledger} (h : db.Shows L) (h' : db'.Shows L')
    {c : MultiColumn} (hc : L.multi c = L'.multi c) : db.get? c.tree = db'.get? c.tree := by
  obtain ⟨tree, hget, htree⟩ := h.multi c
  obtain ⟨tree', hget', htree'⟩ := h'.multi c
  rw [hget, hget', htree.tree_unique (hc ▸ htree')]

end Database.Shows

/-- Every tree of the layout is a column. -/
theorem Layout.column_of_mem {name : String} {kind : TreeKind} (h : (name, kind) ∈ trees) :
    (∃ c : PlainColumn, c.tree = name) ∨ ∃ c : MultiColumn, c.tree = name := by
  simp only [trees, List.mem_cons, Prod.mk.injEq, List.not_mem_nil, or_false] at h
  rcases h with ⟨rfl, _⟩ | ⟨rfl, _⟩ | ⟨rfl, _⟩ | ⟨rfl, _⟩ | ⟨rfl, _⟩ | ⟨rfl, _⟩ | ⟨rfl, _⟩ |
    ⟨rfl, _⟩ | ⟨rfl, _⟩
  · exact .inl ⟨.metadata, rfl⟩
  · exact .inl ⟨.values, rfl⟩
  · exact .inr ⟨.live, rfl⟩
  · exact .inr ⟨.deleted, rfl⟩
  · exact .inl ⟨.names, rfl⟩
  · exact .inr ⟨.dates, rfl⟩
  · exact .inl ⟨.places, rfl⟩
  · exact .inl ⟨.etags, rfl⟩
  · exact .inl ⟨.cursors, rfl⟩

/-- Trees that present one ledger are equal. -/
theorem Database.Shows.get?_eq {db db' : Database} {L : Ledger} (h : db.Shows L) (h' : db'.Shows L)
    {name : String} (hname : name ∈ Layout.trees.map Prod.fst) : db.get? name = db'.get? name := by
  obtain ⟨⟨_, kind⟩, hmem, rfl⟩ := List.mem_map.1 hname
  rcases Layout.column_of_mem hmem with ⟨column, rfl⟩ | ⟨column, rfl⟩
  · exact h.get?_plain_eq h' (c := column) rfl
  · exact h.get?_multi_eq h' (c := column) rfl

end CounterMesh
