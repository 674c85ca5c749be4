import CounterMesh.Proofs.Store.Operations

/-!
# Purges on a catalog

Forgetting a counter scans its names and its slots by the front of their keys,
which is its id, and removes what it finds. On a sound catalog that is all there
is of the counter but the date of its tombstone, which the purge takes out of
the list by date itself. A batch forgets one deleted counter after another.
-/

namespace CounterMesh

namespace Ledger

variable (L : Ledger)

/-- A name of a deleted counter is gone from both indexes. -/
def forgetName (counterId : CounterId) (name group : String) : Ledger :=
  (L.setMulti .deleted ((L.multi .deleted).discard group (name, counterId))).setPlain .names
    ((L.plain .names).clear (counterId, name))

/-- A slot is gone with its etag. -/
def forgetSlot (p : Place) : Ledger :=
  (L.removeEtag p).setPlain .values ((L.plain .values).clear p)

/-- These names of a deleted counter are gone. -/
def withoutNames (counterId : CounterId) (rows : List ((CounterId × String) × String)) : Ledger :=
  (L.setMulti .deleted fun group entry =>
    (∀ row ∈ rows, ¬ (group = row.2 ∧ entry = (row.1.2, counterId))) ∧
      L.multi .deleted group entry).setPlain .names fun key group =>
    (∀ row ∈ rows, key ≠ (counterId, row.1.2)) ∧ L.plain .names key group

/-- These slots are gone. -/
def withoutSlots (rows : List (Place × Int64)) : Ledger :=
  ((L.setPlain .places fun etag q =>
    (∀ row ∈ rows, ¬ L.plain .etags row.1 etag) ∧ L.plain .places etag q).setPlain .etags
      fun q etag => (∀ row ∈ rows, q ≠ row.1) ∧ L.plain .etags q etag).setPlain .values
        fun q value => (∀ row ∈ rows, q ≠ row.1) ∧ L.plain .values q value

theorem withoutNames_nil (counterId : CounterId) : L.withoutNames counterId [] = L := by
  rw [withoutNames, setPlain_eq_self, setMulti_eq_self]
  · simp
  · simp

theorem withoutNames_cons (counterId : CounterId) (row : (CounterId × String) × String)
    (rest : List ((CounterId × String) × String)) :
    (L.forgetName counterId row.1.2 row.2).withoutNames counterId rest =
      L.withoutNames counterId (row :: rest) := by
  refine Ledger.ext_iff_pairs ?_ ?_ rfl rfl
  · intro column x y
    cases column with
    | names =>
        simp [withoutNames, forgetName, Pairs.clear]
        tauto
    | _ => rfl
  · intro column x y
    cases column with
    | deleted =>
        simp [withoutNames, forgetName, Pairs.discard]
        tauto
    | _ => rfl

theorem withoutSlots_nil : L.withoutSlots [] = L := by
  rw [withoutSlots, setPlain_eq_self, setPlain_eq_self, setPlain_eq_self] <;> simp

theorem withoutSlots_cons (row : Place × Int64) (rest : List (Place × Int64)) :
    (L.forgetSlot row.1).withoutSlots rest = L.withoutSlots (row :: rest) := by
  refine Ledger.ext_iff_pairs ?_ (fun _ _ _ => Iff.rfl) rfl rfl
  intro column x y
  cases column with
  | values =>
      simp [withoutSlots, forgetSlot, Pairs.clear]
      tauto
  | places =>
      simp [withoutSlots, forgetSlot, removeEtag, freePlace, Pairs.clear]
      grind
  | etags =>
      simp [withoutSlots, forgetSlot, removeEtag, Pairs.clear]
      tauto
  | _ => rfl

end Ledger

namespace Write

variable {s : Session} {home : Node} {L : Ledger} {c : Catalog}

theorem returns_forgetName (h : s.Shows home L) (counterId : CounterId) (name group : String) :
    Returns (forgetName counterId (Code.nameKey.bytes (counterId, name)) (Bytes.ofText group)) s
      fun _ s' => s'.Shows home (L.forgetName counterId name group) := by
  have hsplit : NameKey.split Layout.counterNames (Code.nameKey.bytes (counterId, name)) =
      .ok (counterId, Bytes.ofText name) := NameKey.split_bytes ..
  refine (returns_answer hsplit).bind ?_
  rintro _ _ ⟨rfl, rfl⟩
  refine (returns_multiDelete h .deleted group (name, counterId)).bind fun _ s₁ h₁ => ?_
  exact returns_delete h₁ .names (counterId, name)

theorem returns_forgetSlot (h : s.Shows home L) (p : Place) :
    Returns (forgetSlot p.bytes) s fun _ s' => s'.Shows home (L.forgetSlot p) :=
  (returns_removeEtag h p).bind fun _ _ h₁ => returns_delete h₁ .values p

/-- The names of a counter are forgotten one after another. -/
theorem returns_forgetNames (counterId : CounterId)
    (rows : List ((CounterId × String) × String)) (hrows : ∀ row ∈ rows, row.1.1 = counterId)
    (h : s.Shows home L) :
    Returns ((rows.map fun row => (Code.nameKey.bytes row.1, Bytes.ofText row.2)).forM
      fun (key, group) => forgetName counterId key group) s
      fun _ s' => s'.Shows home (L.withoutNames counterId rows) := by
  induction rows generalizing s L with
  | nil =>
      rw [L.withoutNames_nil]
      exact .pure h
  | cons row rest ih =>
      have hkey : Code.nameKey.bytes row.1 = Code.nameKey.bytes (counterId, row.1.2) :=
        congrArg _ (Prod.ext (hrows row List.mem_cons_self) rfl)
      rw [← L.withoutNames_cons, List.map_cons, hkey]
      refine (returns_forgetName h counterId row.1.2 row.2).bind fun _ s₁ h₁ => ?_
      exact ih (fun r hr => hrows r (.tail _ hr)) h₁

/-- The slots of a counter are forgotten one after another. -/
theorem returns_forgetSlots (rows : List (Place × Int64)) (h : s.Shows home L) :
    Returns ((rows.map fun row => (row.1.bytes, Word.little row.2)).forM
      fun (key, _) => forgetSlot key) s
      fun _ s' => s'.Shows home (L.withoutSlots rows) := by
  induction rows generalizing s L with
  | nil =>
      rw [L.withoutSlots_nil]
      exact .pure h
  | cons row rest ih =>
      rw [← L.withoutSlots_cons, List.map_cons]
      exact (returns_forgetSlot h row.1).bind fun _ s₁ h₁ => ih h₁

end Write

namespace Catalog

variable {c : Catalog} {counterId : CounterId}

theorem valueAt_forget_iff {p : Place} {value : Int64} :
    (c.forget counterId).valueAt p = some value ↔
      c.valueAt p = some value ∧ p.counterId ≠ counterId := by
  simp only [valueAt, Option.map_eq_some_iff, cells_forget_eq_some_iff]
  tauto

theorem etagAt_forget_iff {p : Place} {etag : Etag} :
    (c.forget counterId).etagAt p = some etag ↔
      c.etagAt p = some etag ∧ p.counterId ≠ counterId := by
  simp only [etagAt, Option.map_eq_some_iff, cells_forget_eq_some_iff]
  tauto

theorem deleted_forget_iff {id : CounterId} :
    (c.forget counterId).Deleted id ↔ c.Deleted id ∧ id ≠ counterId := by
  simp only [deleted_iff_valueAt, valueAt_forget_iff, exists_and_right]
  rfl

theorem cells_forgetAll_eq_some_iff {ids : List CounterId} {p : Place} {cell : Cell} :
    (c.forgetAll ids).cells p = some cell ↔ c.cells p = some cell ∧ p.counterId ∉ ids := by
  induction ids generalizing c with
  | nil => simp
  | cons id rest ih =>
      rw [forgetAll_cons, ih, cells_forget_eq_some_iff, List.mem_cons]
      tauto

theorem ids_forgetAll_eq_some_iff {ids : List CounterId} {g n : String} {id : CounterId} :
    (c.forgetAll ids).ids g n = some id ↔ c.ids g n = some id ∧ id ∉ ids := by
  induction ids generalizing c with
  | nil => simp
  | cons first rest ih =>
      rw [forgetAll_cons, ih, ids_forget_eq_some_iff, List.mem_cons]
      tauto

theorem valueAt_forgetAll_iff {ids : List CounterId} {p : Place} {value : Int64} :
    (c.forgetAll ids).valueAt p = some value ↔ c.valueAt p = some value ∧ p.counterId ∉ ids := by
  simp only [valueAt, Option.map_eq_some_iff, cells_forgetAll_eq_some_iff]
  tauto

theorem etagAt_forgetAll_iff {ids : List CounterId} {p : Place} {etag : Etag} :
    (c.forgetAll ids).etagAt p = some etag ↔ c.etagAt p = some etag ∧ p.counterId ∉ ids := by
  simp only [etagAt, Option.map_eq_some_iff, cells_forgetAll_eq_some_iff]
  tauto

theorem deleted_forgetAll_iff {ids : List CounterId} {id : CounterId} :
    (c.forgetAll ids).Deleted id ↔ c.Deleted id ∧ id ∉ ids := by
  simp only [deleted_iff_valueAt, valueAt_forgetAll_iff, exists_and_right]
  rfl

/-- The catalog comes from the first by forgetting counters, none of them live, one after
another. -/
inductive Forgets (c : Catalog) : Catalog → Prop where
  | refl : Forgets c c
  | forget {c' : Catalog} (h : Forgets c c') (counterId : CounterId)
      (hdeleted : ∀ g n, c'.ids g n = some counterId → c'.Deleted counterId) :
      Forgets c (c'.forget counterId)

namespace Forgets

variable {c₀ c' : Catalog}

theorem forgetAll {ids : List CounterId} (h : Forgets c c')
    (hids : ∀ id ∈ ids, ∀ g n, c'.ids g n = some id → c'.Deleted id) :
    Forgets c (c'.forgetAll ids) := by
  induction ids generalizing c' with
  | nil => exact h
  | cons id rest ih =>
      obtain ⟨hid, hrest⟩ := List.forall_mem_cons.1 hids
      refine ih (h.forget id hid) fun other hother g n hlisted => ?_
      obtain ⟨hlisted', hne⟩ := ids_forget_eq_some_iff.1 hlisted
      exact deleted_forget_iff.2 ⟨hrest other hother g n hlisted', hne⟩

theorem sound (h : Forgets c c') (hs : c.Sound) : c'.Sound := by
  induction h with
  | refl => exact hs
  | forget h counterId hdeleted ih => exact ih.forget counterId

theorem allNamed (h : Forgets c c') (hn : c.AllNamed) : c'.AllNamed := by
  induction h with
  | refl => exact hn
  | forget h counterId hdeleted ih => exact ih.forget counterId

theorem evolves {k : Nat} (h : Forgets c c') (h₀ : Evolves True k c₀ c) :
    Evolves True k c₀ c' := by
  induction h with
  | refl => exact h₀
  | forget h counterId hdeleted ih => exact ih.forget counterId trivial

/-- A counter is forgotten, unless it was live, or it is as it was. -/
theorem cases (h : Forgets c c') (group name : String) :
    c.Agrees c' group name ∨ ¬ c.Live group name ∧ c'.ids group name = none := by
  induction h with
  | refl => exact .inl (.refl c group name)
  | @forget c' h counterId hdeleted ih =>
      rcases ih with hagrees | ⟨hdead, hnone⟩
      · by_cases hid : c'.ids group name = some counterId
        · refine .inr ⟨?_, if_pos hid⟩
          rw [← hagrees.live_iff]
          rintro ⟨id, hlisted, hlive⟩
          obtain rfl : counterId = id := Option.some.inj (hid.symm.trans hlisted)
          exact hlive (hdeleted group name hid)
        · exact .inl (hagrees.trans (.forget hid))
      · refine .inr ⟨hdead, ?_⟩
        rw [Catalog.forget]
        simp only [hnone, reduceCtorEq, if_false]

end Forgets

/-- The list by date still has the tombstone of a counter whose names and slots are gone. -/
theorem ledger_forget (h : c.Sound)
    (hlive : ∀ g n, c.ids g n = some counterId → c.Deleted counterId)
    {names : List ((CounterId × String) × String)} {slots : List (Place × Int64)}
    (hnames : ∀ key group, (key, group) ∈ names ↔
      c.ids group key.2 = some key.1 ∧ key.1 = counterId)
    (hslots : ∀ p value, (p, value) ∈ slots ↔ c.valueAt p = some value ∧ p.counterId = counterId) :
    (c.ledger.withoutNames counterId names).withoutSlots slots =
      (c.forget counterId).ledger.setMulti .dates (c.ledger.multi .dates) := by
  have hvalue : ∀ {p etag}, c.etagAt p = some etag → ∃ value, c.valueAt p = some value :=
    fun hetag => c.exists_valueAt_iff.2 ⟨_, hetag⟩
  refine Ledger.ext_iff_pairs ?_ ?_ rfl rfl
  · intro column x y
    cases column with
    | values =>
        simp [Ledger.withoutSlots, Ledger.withoutNames, hslots, valueAt_forget_iff]
        grind
    | names =>
        obtain ⟨id, n⟩ := x
        simp [Ledger.withoutSlots, Ledger.withoutNames, ids_forget_eq_some_iff, hnames]
        grind
    | places =>
        have hunique := @h.etagAt_unique
        simp [Ledger.withoutSlots, Ledger.withoutNames, hslots, etagAt_forget_iff]
        grind
    | etags =>
        simp [Ledger.withoutSlots, Ledger.withoutNames, hslots, etagAt_forget_iff]
        grind
    | _ => rfl
  · intro column x y
    cases column with
    | live =>
        simp [Ledger.withoutSlots, Ledger.withoutNames, ids_forget_eq_some_iff, deleted_forget_iff]
        grind
    | deleted =>
        obtain ⟨n, id⟩ := y
        simp [Ledger.withoutSlots, Ledger.withoutNames, ids_forget_eq_some_iff, hnames,
          deleted_forget_iff]
        grind
    | dates => rfl

/-- The tombstone of a forgotten counter is taken out of the list by its date. -/
theorem ledger_forget_dates {date : Int64}
    (hdate : ∀ ticks, c.valueAt (.tombstone counterId) = some ticks → ticks = date) :
    ((c.forget counterId).ledger.setMulti .dates (c.ledger.multi .dates)).setMulti .dates
      ((c.ledger.multi .dates).discard date (.tombstone counterId)) =
      (c.forget counterId).ledger := by
  refine Ledger.ext_iff_pairs (fun _ _ _ => Iff.rfl) ?_ rfl rfl
  intro column x y
  cases column <;> simp [valueAt_forget_iff, Pairs.discard]
  case dates =>
    have htomb : (Place.tombstone counterId).counterId = counterId := rfl
    grind

end Catalog

namespace Write

variable {s : Session} {home : Node} {L : Ledger} {c : Catalog}

/-- Everything of a counter that is not live is removed but the date of its tombstone. -/
theorem returns_forget (h : s.Shows home c.ledger) (hs : c.Sound) {counterId : CounterId}
    (hlive : ∀ g n, c.ids g n = some counterId → c.Deleted counterId) :
    Returns (forget counterId) s fun _ s' => s'.Shows home
      ((c.forget counterId).ledger.setMulti .dates (c.ledger.multi .dates)) := by
  obtain ⟨names, hscan, hnames⟩ :=
    Transaction.scanStarting_of_shows h.trees .names (Word.big counterId)
  have hname : ∀ key group, (key, group) ∈ names ↔
      c.ids group key.2 = some key.1 ∧ key.1 = counterId := by
    intro key group
    rw [hnames]
    exact and_congr_right fun _ => NameKey.prefix_bytes_iff counterId key.1 _
  refine (returns_query hscan).bind ?_
  rintro _ s₁ ⟨rfl, rfl⟩
  have hrows : ∀ row ∈ names, row.1.1 = counterId := fun row hrow => ((hname row.1 row.2).1 hrow).2
  refine (returns_forgetNames counterId names hrows h).bind fun _ s₂ h₂ => ?_
  obtain ⟨slots, hscan', hslots⟩ :=
    Transaction.scanStarting_of_shows h₂.trees .values (Word.big counterId)
  have hslot : ∀ p value, (p, value) ∈ slots ↔
      c.valueAt p = some value ∧ p.counterId = counterId := by
    intro p value
    rw [hslots]
    have hvalues : (c.ledger.withoutNames counterId names).plain .values =
        c.ledger.plain .values := rfl
    rw [hvalues]
    exact and_congr_right fun _ => Place.prefix_bytes_iff counterId p
  refine (returns_query hscan').bind ?_
  rintro _ s₃ ⟨rfl, rfl⟩
  rw [← Catalog.ledger_forget hs hlive hname hslot]
  exact returns_forgetSlots slots h₂

/-- What is left to purge of a counter: nothing, or all of it under this date. -/
def Purgeable (c : Catalog) (date : Int64) (counterId : CounterId) : Prop :=
  (∀ g n, c.ids g n = some counterId → c.Deleted counterId) ∧
    ∀ ticks, c.valueAt (.tombstone counterId) = some ticks → ticks = date

theorem returns_purgeTombstone (h : s.Shows home c.ledger) (hs : c.Sound) {date : Int64}
    {counterId : CounterId} (hpurge : Purgeable c date counterId) :
    Returns (purgeTombstone (Word.ordered date) (Place.tombstone counterId).bytes) s
      fun _ s' => s'.Shows home (c.forget counterId).ledger := by
  refine (returns_answer (Place.decode_bytes _ _)).bind ?_
  rintro _ s₁ ⟨rfl, rfl⟩
  refine (returns_forget h hs hpurge.1).bind fun _ s₂ h₂ => ?_
  have hdelete := returns_multiDelete h₂ .dates date (.tombstone counterId)
  rw [Ledger.multi_setMulti_self, Catalog.ledger_forget_dates hpurge.2] at hdelete
  exact hdelete

theorem Purgeable.forget {date : Int64} {counterId : CounterId} (h : Purgeable c date counterId)
    (other : CounterId) : Purgeable (c.forget other) date counterId := by
  refine ⟨fun g n hid => ?_, fun ticks hticks => ?_⟩
  · obtain ⟨hid, hne⟩ := Catalog.ids_forget_eq_some_iff.1 hid
    exact Catalog.deleted_forget_iff.2 ⟨h.1 g n hid, hne⟩
  · exact h.2 ticks (Catalog.valueAt_forget_iff.1 hticks).1

end Write

/-- A deleted counter with the time of its deletion. -/
structure Tombstone where
  date : Int64
  counterId : CounterId
  deriving DecidableEq

namespace Tombstone

/-- The order of the list by date: by deletion time, and by the keys of the tombstones within one
time. -/
def Before (a b : Tombstone) : Prop :=
  a.date < b.date ∨ a.date = b.date ∧
    compare (SlotKey.tombstone a.counterId).bytes (SlotKey.tombstone b.counterId).bytes = .lt

/-- The pair that stands for a tombstone in the list by date. -/
def row (tombstone : Tombstone) : Bytes × Bytes :=
  (Word.ordered tombstone.date, (Place.tombstone tombstone.counterId).bytes)

instance irrefl_before : Std.Irrefl Before :=
  ⟨fun a h => h.elim Int64.lt_irrefl fun hlt => by simp at hlt⟩

instance antisymm_before : Std.Antisymm Before := by
  refine ⟨fun a b h h' => ?_⟩
  rcases h with hlt | ⟨heq, hlt⟩
  · rcases h' with hlt' | ⟨heq', _⟩
    · exact absurd (Int64.lt_trans hlt hlt') Int64.lt_irrefl
    · exact absurd (heq' ▸ hlt) Int64.lt_irrefl
  · rcases h' with hlt' | ⟨_, hlt'⟩
    · exact absurd (heq ▸ hlt') Int64.lt_irrefl
    · rw [Std.OrientedCmp.gt_of_lt hlt] at hlt'
      cases hlt'

end Tombstone

namespace Catalog

variable {c : Catalog} {tombstones : List Tombstone}

/-- These are the tombstones of the catalog, in the order of the list by date. -/
structure Entombs (c : Catalog) (tombstones : List Tombstone) : Prop where
  sorted : tombstones.Pairwise Tombstone.Before
  mem_iff : ∀ date counterId, ⟨date, counterId⟩ ∈ tombstones ↔
    c.valueAt (.tombstone counterId) = some date

namespace Entombs

theorem unique {tombstones' : List Tombstone} (h : c.Entombs tombstones)
    (h' : c.Entombs tombstones') : tombstones = tombstones' :=
  h.sorted.eq_of_mem_iff h'.sorted fun ⟨date, id⟩ =>
    (h.mem_iff date id).trans (h'.mem_iff date id).symm

/-- A counter has one tombstone. -/
theorem nodup (h : c.Entombs tombstones) : (tombstones.map Tombstone.counterId).Nodup := by
  rw [List.Nodup, List.pairwise_map]
  refine h.sorted.imp_of_mem fun {a b} ha hb hbefore heq => ?_
  have hdate : a.date = b.date := by
    have hvalue := (h.mem_iff a.date a.counterId).1 ha
    rw [heq, (h.mem_iff b.date b.counterId).1 hb] at hvalue
    exact (Option.some.inj hvalue).symm
  have hsame : a = b := by
    cases a
    cases b
    exact Tombstone.mk.injEq .. ▸ ⟨hdate, heq⟩
  exact Std.Irrefl.irrefl b (hsame ▸ hbefore)

/-- The counters of a batch of the tombstones are deleted. -/
theorem deleted (h : c.Entombs tombstones) (due : Tombstone → Bool) (n : Nat) :
    ∀ id ∈ ((tombstones.filter due).take n).map Tombstone.counterId, c.Deleted id := by
  intro id hid
  obtain ⟨tombstone, hmem, rfl⟩ := List.mem_map.1 hid
  exact c.deleted_iff_valueAt.2 ⟨_, (h.mem_iff _ _).1
    (List.mem_of_mem_filter (List.mem_of_mem_take hmem))⟩

/-- The tombstones up to a date stand in front of the others. -/
theorem takeWhile_date_le (h : c.Entombs tombstones) (cutoff : Int64) :
    (tombstones.takeWhile fun tombstone => tombstone.date ≤ cutoff) =
      tombstones.filter fun tombstone => tombstone.date ≤ cutoff := by
  refine OrdMap.takeWhile_eq_filter (h.sorted.imp fun {a b} hbefore hb => ?_)
  have hle : a.date ≤ b.date := hbefore.elim Int64.le_of_lt fun heq => heq.1 ▸ Int64.le_refl _
  exact decide_eq_true (Int64.le_trans hle (of_decide_eq_true hb))

theorem forgetAll (h : c.Entombs tombstones) (ids : List CounterId) :
    (c.forgetAll ids).Entombs (tombstones.filter fun tombstone => tombstone.counterId ∉ ids) where
  sorted := h.sorted.sublist List.filter_sublist
  mem_iff := by
    intro date id
    rw [List.mem_filter, h.mem_iff, valueAt_forgetAll_iff, decide_eq_true_iff]
    rfl

end Entombs

/-- The list by date is the list of the tombstones. -/
theorem exists_entombs {t : Transaction} (h : t.trees.Shows c.ledger) : ∃ tombstones,
    c.Entombs tombstones ∧
    t.pairsFrom Layout.tombstonesByDate [] = .ok (tombstones.map Tombstone.row) := by
  obtain ⟨rows, hpairs, hsorted, hmem⟩ := Transaction.pairsFrom_of_shows h .dates
  have htomb : ∀ row ∈ rows, row.2 = .tombstone row.2.counterId := fun row hrow =>
    ((hmem row.1 row.2).1 hrow).1
  refine ⟨rows.map fun row => ⟨row.1, row.2.counterId⟩, ⟨?_, fun date id => ?_⟩, ?_⟩
  · rw [List.pairwise_map]
    refine hsorted.imp_of_mem fun {a b} ha hb hbefore => ?_
    refine hbefore.imp (Word.compare_ordered_lt_iff _ _).1 ?_
    rintro ⟨heq, hlt⟩
    have hkeys := (htomb a ha) ▸ (htomb b hb) ▸ hlt
    rw [Place.bytes_tombstone, Place.bytes_tombstone]
    exact ⟨Word.ordered_injective heq, hkeys⟩
  · rw [List.mem_map]
    constructor
    · rintro ⟨⟨date', p⟩, hrow, heq⟩
      cases heq
      obtain ⟨hp, hvalue⟩ := (hmem date' p).1 hrow
      exact hp ▸ hvalue
    · intro hvalue
      exact ⟨(date, .tombstone id), (hmem date _).2 ⟨rfl, hvalue⟩, rfl⟩
  · refine hpairs.trans ?_
    rw [List.map_map]
    refine congrArg Except.ok (List.map_congr_left fun row hrow => ?_)
    exact Prod.ext rfl (congrArg Place.bytes (htomb row hrow))

end Catalog

namespace Write

variable {s : Session} {home : Node} {c : Catalog} {tombstones : List Tombstone}

/-- A batch is read off the front of the list by date. -/
theorem expired_rows (cutoff : Int64) (tombstones : List Tombstone) (limit : Nat) :
    expired cutoff limit (tombstones.map Tombstone.row) =
      .ok (((tombstones.takeWhile fun tombstone => tombstone.date ≤ cutoff).take limit).map
        Tombstone.row) := by
  induction tombstones generalizing limit with
  | nil => cases limit <;> rfl
  | cons tombstone rest ih =>
      cases limit with
      | zero => rfl
      | succ limit =>
          have hread : Stored.ticks Layout.tombstonesByDate (Word.ordered tombstone.date) =
              .ok tombstone.date := Stored.ticks_ordered ..
          rw [List.map_cons, Tombstone.row]
          simp only [expired, hread, bind, Except.bind]
          by_cases hdate : tombstone.date ≤ cutoff
          · simp only [if_neg (Int64.not_lt.2 hdate), ih limit, List.takeWhile_cons, hdate,
              decide_true, if_true]
            rfl
          · simp only [if_pos (Int64.not_le.1 hdate), List.takeWhile_cons, hdate, decide_false]
            rfl

/-- Every tombstone can be purged. -/
theorem purgeable_of_entombs (h : c.Entombs tombstones) {tombstone : Tombstone}
    (hmem : tombstone ∈ tombstones) : Purgeable c tombstone.date tombstone.counterId := by
  have hvalue := (h.mem_iff tombstone.date tombstone.counterId).1 hmem
  refine ⟨fun g n _ => c.deleted_iff_valueAt.2 ⟨_, hvalue⟩, fun ticks hticks => ?_⟩
  rw [hvalue] at hticks
  exact (Option.some.inj hticks).symm

/-- The counters of a batch are forgotten one after another. -/
theorem returns_purgeTombstones (h : s.Shows home c.ledger) (hs : c.Sound)
    (batch : List Tombstone) (hbatch : ∀ tombstone ∈ batch,
      Purgeable c tombstone.date tombstone.counterId) :
    Returns ((batch.map Tombstone.row).forM fun (date, key) => purgeTombstone date key) s
      fun _ s' => s'.Shows home (c.forgetAll (batch.map Tombstone.counterId)).ledger := by
  induction batch generalizing s c with
  | nil => exact .pure h
  | cons tombstone rest ih =>
      obtain ⟨hfirst, hrest⟩ := List.forall_mem_cons.1 hbatch
      refine (returns_purgeTombstone h hs hfirst).bind fun _ s₁ h₁ => ?_
      exact ih h₁ (hs.forget _) fun other hother => (hrest other hother).forget _

/-- A purge forgets the counters of the first tombstones, at most one batch of them, that are as
old as the retention, and tells whether there are any. -/
theorem returns_purgeBatch (h : s.Shows home c.ledger) (hs : c.Sound)
    (htombstones : c.Entombs tombstones) {batch : List Tombstone}
    (hbatch : batch = (tombstones.filter fun tombstone => tombstone.date ≤
      ticksOf s.node.clock.now.1 - home.config.retentionTicks).take
        home.config.deletedTombstonesInBatch.toNat) :
    Returns purgeBatch s fun any s' => any = !batch.isEmpty ∧
      s'.Shows home (c.forgetAll (batch.map Tombstone.counterId)).ledger := by
  refine returns_config.bind ?_
  rintro config s₁ ⟨rfl, rfl⟩
  refine returns_now.bind ?_
  rintro now s₂ ⟨rfl, rfl⟩
  have h₂ := h.withClock s₁.node.clock.now.2
  obtain ⟨tombstones', htombstones', hpairs⟩ := Catalog.exists_entombs h.trees
  obtain rfl := htombstones'.unique htombstones
  refine (returns_query (a := batch.map Tombstone.row) ?_).bind ?_
  · rw [hpairs]
    refine (expired_rows _ _ _).trans ?_
    rw [htombstones.takeWhile_date_le, hbatch, h.config_eq]
  rintro _ s₃ ⟨rfl, rfl⟩
  refine (returns_purgeTombstones h₂ hs batch fun tombstone hmem => ?_).bind fun _ s₄ h₄ => ?_
  · rw [hbatch] at hmem
    exact purgeable_of_entombs htombstones (List.mem_of_mem_filter (List.mem_of_mem_take hmem))
  · refine .pure ⟨?_, h₄⟩
    rw [List.isEmpty_map]

/-- A purge of one batch forgets deleted counters and does nothing else. -/
theorem forgets_purgeBatch (h : s.Shows home c.ledger) (hs : c.Sound) :
    Returns purgeBatch s fun _ s' => ∃ c', Catalog.Forgets c c' ∧ s'.Shows home c'.ledger := by
  obtain ⟨tombstones, htombstones, _⟩ := Catalog.exists_entombs h.trees
  refine (returns_purgeBatch h hs htombstones rfl).mono ?_
  rintro _ s' ⟨_, h'⟩
  exact ⟨_, Catalog.Forgets.refl.forgetAll fun id hid _ _ _ =>
    htombstones.deleted _ _ id hid, h'⟩

/-- A purge is a part of the evolution of its catalog. -/
theorem reached_purgeBatch {k : Nat} (h : s.Reached home True c k) (hs : c.Sound)
    (hroom : c.HasRoom k) :
    Returns purgeBatch s fun _ s' => s'.Reached home True c k := by
  obtain ⟨c₀, hevolves, hn, hshows⟩ := h
  refine (forgets_purgeBatch hshows (hevolves.sound hs hroom)).mono ?_
  rintro _ s' ⟨c', hforgets, h'⟩
  exact ⟨c', hforgets.evolves hevolves, fun hc => hforgets.allNamed (hn hc), h'⟩

end Write

end CounterMesh
