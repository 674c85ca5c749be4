import CounterMesh.Proofs.Store.Ledger

/-!
# Catalogs

A catalog is what a store holds, free of its trees: the ids of its counters, and
the value and the etag of every slot. All index trees follow from it, so that
nine trees cannot disagree once they present the ledger of one catalog. A
counter is deleted while it has a tombstone; nothing else records that.

A sound catalog gives every counter its own id, every slot its own etag, every
counter a slot and every slot a counter, and a deleted counter a tombstone that
is newer than its other slots.
-/

namespace CounterMesh

/-- What a slot holds: its value, and the etag of its last write. -/
@[ext]
structure Cell where
  value : Int64
  etag : Etag
  deriving DecidableEq

/-- What a store holds, and how far its sequences have come. -/
structure Catalog where
  ids : (group name : String) → Option CounterId
  cells : Place → Option Cell
  cursors : ServerId → Option Etag
  metadata : Bytes → Option Bytes
  lastEtag : Etag
  lastCounterId : CounterId

namespace Catalog

section Lookup

variable (c : Catalog)

def valueAt (p : Place) : Option Int64 := (c.cells p).map Cell.value

def etagAt (p : Place) : Option Etag := (c.cells p).map Cell.etag

/-- The counter with this id has a tombstone. -/
def Deleted (counterId : CounterId) : Prop := (c.cells (.tombstone counterId)).isSome

/-- The counter is listed, and it is not deleted. -/
def Live (group name : String) : Prop :=
  ∃ counterId, c.ids group name = some counterId ∧ ¬ c.Deleted counterId

/-- The id of a counter; the next id for a counter that is not listed. -/
def idFor (group name : String) : CounterId := (c.ids group name).getD (c.lastCounterId + 1)

/-- The place of a slot of a counter. -/
def placeFor (group name : String) (serverId : ServerId) (sign : Sign) : Place :=
  ⟨c.idFor group name, serverId, sign⟩

/-- The columns that follow from the catalog. -/
def ledger : Ledger where
  plain
    | .metadata => fun key value => c.metadata key = some value
    | .values => fun p value => c.valueAt p = some value
    | .names => fun key group => c.ids group key.2 = some key.1
    | .places => fun etag p => c.etagAt p = some etag
    | .etags => fun p etag => c.etagAt p = some etag
    | .cursors => fun serverId etag => c.cursors serverId = some etag
  multi
    | .live => fun group entry => c.ids group entry.1 = some entry.2 ∧ ¬ c.Deleted entry.2
    | .deleted => fun group entry => c.ids group entry.1 = some entry.2 ∧ c.Deleted entry.2
    | .dates => fun ticks p => p = .tombstone p.counterId ∧ c.valueAt p = some ticks
  lastEtag := c.lastEtag
  lastCounterId := c.lastCounterId

section Ledger

variable {p : Place} {etag : Etag} {entry : String × CounterId} {g : String}

@[simp] theorem plain_ledger_metadata {key value : Bytes} :
    c.ledger.plain .metadata key value ↔ c.metadata key = some value := Iff.rfl

@[simp] theorem plain_ledger_values {value : Int64} :
    c.ledger.plain .values p value ↔ c.valueAt p = some value := Iff.rfl

@[simp] theorem plain_ledger_names {key : CounterId × String} :
    c.ledger.plain .names key g ↔ c.ids g key.2 = some key.1 := Iff.rfl

@[simp] theorem plain_ledger_places :
    c.ledger.plain .places etag p ↔ c.etagAt p = some etag := Iff.rfl

@[simp] theorem plain_ledger_etags :
    c.ledger.plain .etags p etag ↔ c.etagAt p = some etag := Iff.rfl

@[simp] theorem plain_ledger_cursors {serverId : ServerId} :
    c.ledger.plain .cursors serverId etag ↔ c.cursors serverId = some etag := Iff.rfl

@[simp] theorem multi_ledger_live :
    c.ledger.multi .live g entry ↔ c.ids g entry.1 = some entry.2 ∧ ¬ c.Deleted entry.2 := Iff.rfl

@[simp] theorem multi_ledger_deleted :
    c.ledger.multi .deleted g entry ↔ c.ids g entry.1 = some entry.2 ∧ c.Deleted entry.2 := Iff.rfl

@[simp] theorem multi_ledger_dates {ticks : Int64} :
    c.ledger.multi .dates ticks p ↔
      p = .tombstone p.counterId ∧ c.valueAt p = some ticks := Iff.rfl

@[simp] theorem lastEtag_ledger : c.ledger.lastEtag = c.lastEtag := rfl

@[simp] theorem lastCounterId_ledger : c.ledger.lastCounterId = c.lastCounterId := rfl

end Ledger

/-- The trees determine the catalog. -/
theorem eq_of_shows {c c' : Catalog} {db : Database} (h : db.Shows c.ledger)
    (h' : db.Shows c'.ledger) (hetag : c.lastEtag = c'.lastEtag)
    (hcounterId : c.lastCounterId = c'.lastCounterId) : c = c' := by
  have hids : c.ids = c'.ids := by
    funext group name
    exact Option.ext fun id => h.plain_iff h' .names (id, name) group
  have hvalues : c.valueAt = c'.valueAt := by
    funext p
    exact Option.ext fun value => h.plain_iff h' .values p value
  have hetags : c.etagAt = c'.etagAt := by
    funext p
    exact Option.ext fun etag => h.plain_iff h' .etags p etag
  have hcells : c.cells = c'.cells := by
    funext p
    have hvalue := congrFun hvalues p
    have hetag := congrFun hetags p
    rw [valueAt, valueAt] at hvalue
    rw [etagAt, etagAt] at hetag
    cases hcell : c.cells p <;> cases hcell' : c'.cells p <;> simp_all [Cell.ext_iff]
  have hcursors : c.cursors = c'.cursors := by
    funext serverId
    exact Option.ext fun etag => h.plain_iff h' .cursors serverId etag
  have hmetadata : c.metadata = c'.metadata := by
    funext key
    exact Option.ext fun value => h.plain_iff h' .metadata key value
  cases c
  cases c'
  simp only [mk.injEq]
  exact ⟨hids, hcells, hcursors, hmetadata, hetag, hcounterId⟩

theorem deleted_iff_valueAt {counterId : CounterId} :
    c.Deleted counterId ↔ ∃ ticks, c.valueAt (.tombstone counterId) = some ticks := by
  rw [← Option.isSome_iff_exists, valueAt, Option.isSome_map]
  rfl

theorem deleted_iff_etagAt {counterId : CounterId} :
    c.Deleted counterId ↔ ∃ etag, c.etagAt (.tombstone counterId) = some etag := by
  rw [← Option.isSome_iff_exists, etagAt, Option.isSome_map]
  rfl

theorem exists_valueAt_iff {p : Place} :
    (∃ value, c.valueAt p = some value) ↔ ∃ etag, c.etagAt p = some etag := by
  rw [← Option.isSome_iff_exists, ← Option.isSome_iff_exists, valueAt, etagAt, Option.isSome_map,
    Option.isSome_map]

theorem etagAt_eq_some_iff {p : Place} {etag : Etag} :
    c.etagAt p = some etag ↔ ∃ value, c.cells p = some ⟨value, etag⟩ := by
  rw [etagAt, Option.map_eq_some_iff]
  constructor
  · rintro ⟨⟨value, _⟩, hcell, rfl⟩
    exact ⟨value, hcell⟩
  · rintro ⟨value, hcell⟩
    exact ⟨_, hcell, rfl⟩

theorem idFor_of_some {c : Catalog} {group name : String} {counterId : CounterId}
    (h : c.ids group name = some counterId) : c.idFor group name = counterId := by
  rw [idFor, h]
  rfl

theorem idFor_of_none {c : Catalog} {group name : String} (h : c.ids group name = none) :
    c.idFor group name = c.lastCounterId + 1 := by
  rw [idFor, h]
  rfl

end Lookup

/-- A counter has the same id and the same slots in both catalogs. -/
structure Agrees (c c' : Catalog) (group name : String) : Prop where
  ids : c'.ids group name = c.ids group name
  cells : ∀ {p : Place}, c.ids group name = some p.counterId → c'.cells p = c.cells p

namespace Agrees

variable {c c' c'' : Catalog} {group name : String}

theorem refl (c : Catalog) (group name : String) : c.Agrees c group name :=
  ⟨rfl, fun _ => rfl⟩

theorem trans (h : c.Agrees c' group name) (h' : c'.Agrees c'' group name) :
    c.Agrees c'' group name where
  ids := h'.ids.trans h.ids
  cells := fun hid => (h'.cells (h.ids.trans hid)).trans (h.cells hid)

theorem deleted_iff (h : c.Agrees c' group name) {id : CounterId}
    (hid : c.ids group name = some id) : c'.Deleted id ↔ c.Deleted id := by
  rw [Deleted, Deleted, h.cells (p := .tombstone id) hid]

theorem valueAt (h : c.Agrees c' group name) {p : Place}
    (hid : c.ids group name = some p.counterId) : c'.valueAt p = c.valueAt p := by
  rw [Catalog.valueAt, Catalog.valueAt, h.cells hid]

theorem etagAt (h : c.Agrees c' group name) {p : Place}
    (hid : c.ids group name = some p.counterId) : c'.etagAt p = c.etagAt p := by
  rw [Catalog.etagAt, Catalog.etagAt, h.cells hid]

theorem live_iff (h : c.Agrees c' group name) : c'.Live group name ↔ c.Live group name := by
  rw [Live, Live, h.ids]
  exact exists_congr fun id => and_congr_right fun hid => not_congr (h.deleted_iff hid)

end Agrees

/-- The catalog with the next counter id taken. -/
def takeCounterId (c : Catalog) : Catalog :=
  { c with
    metadata := Function.update c.metadata Layout.lastCounterIdKey
      (some (Word.big (c.lastCounterId + 1)))
    lastCounterId := c.lastCounterId + 1 }

/-- The catalog with the next etag taken. -/
def takeEtag (c : Catalog) : Catalog :=
  { c with
    metadata := Function.update c.metadata Layout.lastEtagKey
      (some (Word.big (c.lastEtag + 1)))
    lastEtag := c.lastEtag + 1 }

/-- The catalog with an id taken if the counter is not listed. -/
def reserve (c : Catalog) (group name : String) : Catalog :=
  match c.ids group name with
  | some _ => c
  | none => c.takeCounterId

/-- The catalog after the write of a slot: the counter is listed, the slot has the value and the
next etag, and the tombstone of the counter is gone unless it is this slot. -/
def put (c : Catalog) (group name : String) (serverId : ServerId) (sign : Sign)
    (value : Int64) : Catalog :=
  { (c.reserve group name).takeEtag with
    ids := fun g n =>
      if g = group ∧ n = name then some (c.idFor group name) else c.ids g n
    cells := fun q =>
      if q = c.placeFor group name serverId sign then some ⟨value, c.lastEtag + 1⟩
      else if q = .tombstone (c.idFor group name) then none
      else c.cells q }

/-- The catalog without a counter. -/
def forget (c : Catalog) (counterId : CounterId) : Catalog :=
  { c with
    ids := fun g n => if c.ids g n = some counterId then none else c.ids g n
    cells := fun p => if p.counterId = counterId then none else c.cells p }

/-- The catalog without several counters. -/
def forgetAll (c : Catalog) (ids : List CounterId) : Catalog := ids.foldl forget c

/-- The catalog with the cursor of a peer set. -/
def setCursor (c : Catalog) (serverId : ServerId) (etag : Etag) : Catalog :=
  { c with cursors := Function.update c.cursors serverId (some etag) }

/-- The catalog with an entry of the metadata set. -/
def setMetadata (c : Catalog) (key value : Bytes) : Catalog :=
  { c with metadata := Function.update c.metadata key (some value) }

theorem metadata_takeCounterId (c : Catalog) : c.takeCounterId.metadata =
    Function.update c.metadata Layout.lastCounterIdKey (some (Word.big (c.lastCounterId + 1))) :=
  rfl

theorem metadata_takeEtag (c : Catalog) : c.takeEtag.metadata =
    Function.update c.metadata Layout.lastEtagKey (some (Word.big (c.lastEtag + 1))) :=
  rfl

theorem metadata_setMetadata (c : Catalog) (key value : Bytes) :
    (c.setMetadata key value).metadata = Function.update c.metadata key (some value) :=
  rfl

@[simp] theorem forgetAll_nil (c : Catalog) : c.forgetAll [] = c := rfl

@[simp] theorem forgetAll_cons (c : Catalog) (id : CounterId) (ids : List CounterId) :
    c.forgetAll (id :: ids) = (c.forget id).forgetAll ids := rfl

theorem forgetAll_append (c : Catalog) (ids ids' : List CounterId) :
    c.forgetAll (ids ++ ids') = (c.forgetAll ids).forgetAll ids' :=
  List.foldl_append

/-- To forget one counter leaves the others as they are. -/
theorem Agrees.forget {c : Catalog} {group name : String} {counterId : CounterId}
    (h : c.ids group name ≠ some counterId) : c.Agrees (c.forget counterId) group name where
  ids := if_neg h
  cells := by
    intro p hid
    refine if_neg ?_
    rintro rfl
    exact h hid

section Put

variable (c : Catalog) (group name : String) (serverId : ServerId) (sign : Sign) (value : Int64)

@[simp] theorem lastEtag_reserve : (c.reserve group name).lastEtag = c.lastEtag := by
  rw [reserve]
  split <;> rfl

@[simp] theorem ids_reserve : (c.reserve group name).ids = c.ids := by
  rw [reserve]
  split <;> rfl

@[simp] theorem valueAt_reserve : (c.reserve group name).valueAt = c.valueAt := by
  rw [reserve]
  split <;> rfl

@[simp] theorem etagAt_reserve : (c.reserve group name).etagAt = c.etagAt := by
  rw [reserve]
  split <;> rfl

@[simp] theorem deleted_reserve : (c.reserve group name).Deleted = c.Deleted := by
  rw [reserve]
  split <;> rfl

@[simp] theorem cursors_reserve : (c.reserve group name).cursors = c.cursors := by
  rw [reserve]
  split <;> rfl

@[simp] theorem lastEtag_put :
    (c.put group name serverId sign value).lastEtag = c.lastEtag + 1 :=
  congrArg (· + 1) (c.lastEtag_reserve group name)

@[simp] theorem cursors_put : (c.put group name serverId sign value).cursors = c.cursors :=
  c.cursors_reserve group name

@[simp] theorem ids_put_self :
    (c.put group name serverId sign value).ids group name = some (c.idFor group name) :=
  if_pos ⟨rfl, rfl⟩

theorem ids_put_of_ne {g n : String} (h : ¬ (g = group ∧ n = name)) :
    (c.put group name serverId sign value).ids g n = c.ids g n :=
  if_neg h

@[simp] theorem cells_put_self :
    (c.put group name serverId sign value).cells (c.placeFor group name serverId sign) =
      some ⟨value, c.lastEtag + 1⟩ :=
  if_pos rfl

theorem cells_put_tombstone (h : c.placeFor group name serverId sign ≠
    .tombstone (c.idFor group name)) :
    (c.put group name serverId sign value).cells (.tombstone (c.idFor group name)) = none := by
  rw [put]
  simp only [if_neg h.symm, if_true]

theorem cells_put_of_ne {q : Place} (h : q ≠ c.placeFor group name serverId sign)
    (ht : q ≠ .tombstone (c.idFor group name)) :
    (c.put group name serverId sign value).cells q = c.cells q := by
  rw [put]
  simp only [if_neg h, if_neg ht]

/-- A slot after a write is the written one, or one that was there before. -/
theorem cells_put_cases {q : Place} {cell : Cell}
    (h : (c.put group name serverId sign value).cells q = some cell) :
    (q = c.placeFor group name serverId sign ∧ cell = ⟨value, c.lastEtag + 1⟩) ∨
      (q ≠ c.placeFor group name serverId sign ∧ q ≠ .tombstone (c.idFor group name) ∧
        c.cells q = some cell) := by
  by_cases hq : q = c.placeFor group name serverId sign
  · rw [hq, cells_put_self, Option.some.injEq] at h
    exact .inl ⟨hq, h.symm⟩
  · by_cases ht : q = .tombstone (c.idFor group name)
    · rw [ht, cells_put_tombstone _ _ _ _ _ _ (ht ▸ Ne.symm hq)] at h
      cases h
    · rw [cells_put_of_ne _ _ _ _ _ _ hq ht] at h
      exact .inr ⟨hq, ht, h⟩

end Put

end Catalog

end CounterMesh
