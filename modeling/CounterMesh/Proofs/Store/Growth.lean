import CounterMesh.Proofs.Store.Calls
import Mathlib.Algebra.Group.Int.Defs

/-!
# Slots that grow

A local store adds the size of its delta to a slot of its node and gives the slot
a fresh etag. As long as no sum is too great for its slot, a node that does
nothing but store therefore never shows less in a slot under a later etag.
-/

namespace CounterMesh

/-- The slot still holds the first, or holds at least as much under a later etag. -/
def Cell.Before (cell cell' : Cell) : Prop :=
  cell = cell' ∨ cell.etag < cell'.etag ∧ cell.value ≤ cell'.value

namespace Cell.Before

variable {cell cell' cell'' : Cell}

theorem refl (cell : Cell) : cell.Before cell := .inl rfl

theorem trans (h : cell.Before cell') (h' : cell'.Before cell'') : cell.Before cell'' := by
  rcases h with rfl | ⟨hlt, hle⟩
  · exact h'
  · rcases h' with rfl | ⟨hlt', hle'⟩
    · exact .inr ⟨hlt, hle⟩
    · exact .inr ⟨UInt64.lt_trans hlt hlt', Int64.le_trans hle hle'⟩

theorem value_le (h : cell.Before cell') : cell.value ≤ cell'.value := by
  rcases h with rfl | ⟨_, hle⟩
  · exact Int64.le_refl _
  · exact hle

end Cell.Before

namespace Call

/-- The slot of its node that a store adds to, unless it is refused. -/
def target? (own : ServerId) : Call → Option SlotName
  | store group name delta =>
    if Named group name ∧ delta ≠ Int64.minValue then some ⟨group, name, own, Sign.ofDelta delta⟩
    else none
  | _ => none

/-- How much a store adds. -/
def size : Call → Int64
  | store _ _ delta => delta.abs
  | _ => 0

/-- How much the stores of a node add to a slot. -/
def added (own : ServerId) (k : SlotName) : List Call → Int
  | [] => 0
  | call :: rest =>
    (if call.target? own = some k then call.size.toInt else 0) + added own k rest

variable {call : Call} {calls : List Call} {own : ServerId} {k : SlotName}

theorem size_nonneg (h : call.target? own = some k) : 0 ≤ call.size.toInt := by
  cases call with
  | store group name delta =>
      rw [target?, Option.ite_none_right_eq_some] at h
      have hne : delta.toBitVec ≠ BitVec.intMin 64 := fun heq =>
        h.1.2 (Int64.toBitVec_inj.1 heq)
      have habs : delta.abs.toInt = delta.toInt.natAbs :=
        BitVec.toInt_abs_eq_natAbs_of_ne_intMin hne
      rw [size, habs]
      exact Int.natCast_nonneg _
  | _ => cases h

theorem added_nonneg : 0 ≤ added own k calls := by
  induction calls with
  | nil => exact Int.le_refl 0
  | cons call rest ih =>
      rw [added]
      split
      · next h => exact Int.add_nonneg (size_nonneg h) ih
      · rwa [Int.zero_add]

theorem added_of_not_mem (h : k ∉ calls.filterMap (target? own)) : added own k calls = 0 := by
  induction calls with
  | nil => rfl
  | cons call rest ih =>
      rw [List.mem_filterMap] at h ih
      push Not at h ih
      rw [added, if_neg (h call List.mem_cons_self), Int.zero_add]
      exact ih fun call hcall => h call (.tail _ hcall)

end Call

namespace Catalog

variable {c c' c'' : Catalog} {own : ServerId} {call : Call} {calls : List Call} {k : SlotName}

/-- What a slot holds, where a missing slot counts as zero. -/
def amount (c : Catalog) (k : SlotName) : Int64 := ((c.slot k).map Cell.value).getD 0

/-- The catalog of a node after a store. -/
def add (own : ServerId) (c : Catalog) (call : Call) : Catalog :=
  match call.target? own with
  | some k => c.put k.group k.name k.serverId k.sign (c.amount k + call.size)
  | none => c

/-- No slot holds less than it did. -/
def Grows (c c' : Catalog) : Prop :=
  ∀ k cell, c.slot k = some cell → ∃ cell', c'.slot k = some cell' ∧ cell.Before cell'

theorem Grows.refl (c : Catalog) : Grows c c := fun _ cell hk => ⟨cell, hk, .refl cell⟩

theorem Grows.trans (h : Grows c c') (h' : Grows c' c'') : Grows c c'' := by
  intro k cell hk
  obtain ⟨cell', hk', hbefore⟩ := h k cell hk
  obtain ⟨cell'', hk'', hbefore'⟩ := h' k cell' hk'
  exact ⟨cell'', hk'', hbefore.trans hbefore'⟩

/-- The slots of a catalog have room for what calls of its node add to them. -/
def Fits (c : Catalog) (own : ServerId) (calls : List Call) : Prop :=
  ∀ k, (c.amount k).toInt + Call.added own k calls < 2 ^ 63

theorem amount_eq_of_slot {cell : Cell} (hk : c.slot k = some cell) : c.amount k = cell.value := by
  rw [amount, hk]
  rfl

theorem add_of_target {k : SlotName} (h : call.target? own = some k) :
    c.add own call = c.put k.group k.name k.serverId k.sign (c.amount k + call.size) := by
  rw [add, h]

theorem add_of_refused (h : call.target? own = none) : c.add own call = c := by rw [add, h]

/-- A store is at most one write, of a slot of its node. -/
theorem puts_add (c : Catalog) (hown : own ≠ .nil) (call : Call) :
    Puts (fun k => Named k.group k.name ∧ k.serverId = own) 1 c (c.add own call) := by
  cases htarget : call.target? own with
  | none =>
      rw [add_of_refused htarget]
      exact .refl 1 c
  | some k =>
      rw [add_of_target htarget]
      have hk : Named k.group k.name ∧ k.serverId = own := by
        cases call with
        | store group name delta =>
            rw [Call.target?, Option.ite_none_right_eq_some, Option.some.injEq] at htarget
            obtain ⟨⟨hnamed, _⟩, rfl⟩ := htarget
            exact ⟨hnamed, rfl⟩
        | _ => cases htarget
      exact (Puts.refl 0 c).put k _ hk fun hnil => absurd (hk.2.symm.trans hnil) hown

theorem toInt_add_of_fits {a b : Int64} (hb : 0 ≤ b.toInt) (h : a.toInt + b.toInt < 2 ^ 63) :
    (a + b).toInt = a.toInt + b.toInt := by
  have ha := a.le_toInt
  rw [Int64.toInt_add]
  exact Int.bmod_eq_of_le (by omega) (by omega)

/-- A store that is accepted writes its slot and no other. -/
theorem slot_add (hs : c.Sound) (hu : c.Undeleted) (hroom : c.HasRoom 1)
    (htarget : call.target? own = some k) (k' : SlotName) : (c.add own call).slot k' =
      if k' = k then some ⟨c.amount k + call.size, c.lastEtag + 1⟩ else c.slot k' := by
  rw [add_of_target htarget]
  exact hu.slot_put hs hroom k'

/-- A store adds its size to its slot. -/
theorem toInt_amount_add (hs : c.Sound) (hu : c.Undeleted) (hroom : c.HasRoom 1)
    (hfits : c.Fits own (call :: calls)) (k : SlotName) :
    ((c.add own call).amount k).toInt =
      (c.amount k).toInt + if call.target? own = some k then call.size.toInt else 0 := by
  have hk := hfits k
  have hrest : 0 ≤ Call.added own k calls := Call.added_nonneg
  rw [Call.added] at hk
  by_cases htarget : call.target? own = some k
  · rw [if_pos htarget] at hk ⊢
    have hamount : (c.add own call).amount k = c.amount k + call.size :=
      amount_eq_of_slot ((slot_add hs hu hroom htarget k).trans (if_pos rfl))
    rw [hamount]
    exact toInt_add_of_fits (Call.size_nonneg htarget) (by omega)
  · have hsame : (c.add own call).slot k = c.slot k := by
      cases hother : call.target? own with
      | none => rw [add_of_refused hother]
      | some k' =>
          rw [slot_add hs hu hroom hother, if_neg]
          rintro rfl
          exact htarget hother
    rw [if_neg htarget, Int.add_zero, amount, hsame, amount]

/-- A store that fits leaves room for the calls behind it. -/
theorem Fits.tail (hfits : c.Fits own (call :: calls)) (hs : c.Sound) (hu : c.Undeleted)
    (hroom : c.HasRoom 1) : (c.add own call).Fits own calls := by
  intro k
  have hk := hfits k
  rw [Call.added] at hk
  rw [toInt_amount_add hs hu hroom hfits]
  omega

/-- A store that fits lets its slot grow. -/
theorem grows_add (hs : c.Sound) (hu : c.Undeleted) (hroom : c.HasRoom 1)
    (hfits : c.Fits own (call :: calls)) : Grows c (c.add own call) := by
  intro k cell hk
  cases htarget : call.target? own with
  | none =>
      rw [add_of_refused htarget]
      exact ⟨cell, hk, .refl cell⟩
  | some k' =>
      have hslot := slot_add hs hu hroom htarget k
      by_cases heq : k = k'
      · subst heq
        rw [if_pos rfl] at hslot
        have hamount := toInt_amount_add hs hu hroom hfits k
        rw [if_pos htarget, amount_eq_of_slot hk, amount_eq_of_slot hslot] at hamount
        have hsize := Call.size_nonneg htarget
        refine ⟨_, hslot, .inr ⟨?_, ?_⟩⟩
        · exact UInt64.lt_of_le_of_lt (hs.slot_etag_le hk) (lt_add_one_of_room hroom.1 one_pos)
        · rw [Int64.le_iff_toInt_le, hamount]
          omega
      · rw [if_neg heq] at hslot
        exact ⟨cell, hslot.trans hk, .refl cell⟩

/-- The catalog of a node after stores. -/
def adds (own : ServerId) (c : Catalog) (calls : List Call) : Catalog := calls.foldl (add own) c

theorem puts_adds (c : Catalog) (hown : own ≠ .nil) (calls : List Call) :
    Puts (fun k => Named k.group k.name ∧ k.serverId = own) calls.length c (c.adds own calls) := by
  induction calls generalizing c with
  | nil => exact .refl 0 c
  | cons call rest ih =>
      rw [List.length_cons, Nat.add_comm]
      exact (puts_add c hown call).trans (ih (c.add own call))

theorem undeleted_add (hs : c.Sound) (hu : c.Undeleted) (hroom : c.HasRoom 1) (hown : own ≠ .nil)
    (call : Call) : (c.add own call).Undeleted := by
  have hputs := puts_add c hown call
  have hevolves : Evolves False 1 c (c.add own call) := hputs.evolves
  refine (hputs.renews hs hroom).undeleted (hevolves.sound hs hroom) hu ?_
  rintro k _ ⟨_, rfl⟩
  exact hown

/-- Stores that fit let the slots of their node grow. -/
theorem grows_adds (hs : c.Sound) (hu : c.Undeleted) (hroom : c.HasRoom calls.length)
    (hown : own ≠ .nil) (hfits : c.Fits own calls) : Grows c (c.adds own calls) := by
  induction calls generalizing c with
  | nil => exact .refl c
  | cons call rest ih =>
      rw [List.length_cons, Nat.add_comm] at hroom
      have hroom' := hroom.mono (Nat.le_add_right 1 _)
      have hevolves : Evolves False 1 c (c.add own call) := (puts_add c hown call).evolves
      exact (grows_add hs hu hroom' hfits).trans (ih (hevolves.sound hs hroom')
        (undeleted_add hs hu hroom' hown call) (hevolves.hasRoom hroom)
        (hfits.tail hs hu hroom'))

end Catalog

/-- A store moves the catalog of its writer on. -/
theorem Call.shows_finish {call : Call} {s : Session} {home : Node} {c : Catalog}
    (hstore : call.isStore = true) (h : s.Shows home c.ledger) (hs : c.Sound)
    (hroom : c.HasRoom 1) (hnode : home.serverId ≠ .nil) :
    (call.finish s).Shows home (c.add home.serverId call).ledger := by
  cases call with
  | store group name delta =>
      have hends := Write.store_ends h hs hroom hnode group name delta
      have hleaves : Leaves (Write.store group name delta) s fun s' =>
          s'.Shows home (c.add home.serverId (.store group name delta)).ledger := by
        refine hends.mono ?_ ?_
        · rintro _ s' ⟨haccepted, _, h'⟩
          have htarget : (Call.store group name delta).target? home.serverId =
              some ⟨group, name, home.serverId, Sign.ofDelta delta⟩ := if_pos haccepted
          rw [Catalog.add_of_target htarget, Catalog.amount, hs.slot_eq_cells hroom]
          exact h'
        · rintro _ ⟨hrefused, rfl⟩
          have htarget : (Call.store group name delta).target? home.serverId = none :=
            if_neg hrefused
          rw [Catalog.add_of_refused htarget]
          exact h
      have hcall : Leaves (Call.store group name delta).operation s fun s' =>
          s'.Shows home (c.add home.serverId (.store group name delta)).ledger :=
        leaves_discard hleaves
      exact finish_of_leaves _ hcall
  | _ => cases hstore

theorem Write.returns_stores {calls : List Call} {s : Session} {home : Node} {c : Catalog}
    (hstores : ∀ call ∈ calls, call.isStore = true) (h : s.Shows home c.ledger) (hs : c.Sound)
    (hroom : c.HasRoom calls.length) (hnode : home.serverId ≠ .nil) :
    Returns (Write.calls calls) s fun _ s' =>
      s'.Shows home (c.adds home.serverId calls).ledger := by
  induction calls generalizing s c with
  | nil => exact .pure h
  | cons call rest ih =>
      rw [List.length_cons, Nat.add_comm] at hroom
      have hroom' := hroom.mono (Nat.le_add_right 1 _)
      have hevolves : Catalog.Evolves False 1 c (c.add home.serverId call) :=
        (Catalog.puts_add c hnode call).evolves
      have hshows := Call.shows_finish (hstores call List.mem_cons_self) h hs hroom' hnode
      exact Write.returns_calls_cons (ih (fun call' hcall' => hstores call' (.tail _ hcall'))
        hshows (hevolves.sound hs hroom') (hevolves.hasRoom hroom))

namespace Store

variable {store : Store} {serverId : ServerId} {c : Catalog} {calls : List Call}

/-- A writer that only stores is committed with all its stores. -/
theorem Holds.write_stores (h : store.Holds serverId c)
    (hstores : ∀ call ∈ calls, call.isStore = true) (hroom : c.HasRoom calls.length)
    (notify : Bool) : (store.write calls notify).Holds serverId (c.adds serverId calls) := by
  obtain rfl := h.serverId_eq
  have hevolves : Catalog.Evolves False calls.length c (c.adds store.node.serverId calls) :=
    (Catalog.puts_adds c h.keeps.serverId calls).evolves
  have hreturns := StoreM.returns_transact (Write.calls calls)
    (fun _ c' => c' = c.adds store.node.serverId calls) h notify fun s hshows => by
      refine (Write.returns_stores hstores hshows h.keeps.sound hroom h.keeps.serverId).mono ?_
      intro _ s' hshows'
      exact ⟨_, rfl, hevolves.sound h.keeps.sound hroom, hevolves.records h.keeps.records, hshows'⟩
  obtain ⟨_, _, rfl, hholds⟩ := after_of_returns hreturns
  exact hholds

/-- What a reader finds in a slot, where a missing slot counts as zero. -/
def amount (store : Store) (k : SlotName) : Int64 :=
  match store.valueOf? k with
  | .ok value => value.getD 0
  | .error _ => 0

/-- The slots that the calls of a writer add to have room for all that they add. -/
def Fits (store : Store) (calls : List Call) : Prop :=
  ∀ k ∈ calls.filterMap (Call.target? store.node.serverId),
    (store.amount k).toInt + Call.added store.node.serverId k calls < 2 ^ 63

instance (store : Store) : DecidablePred store.Fits :=
  fun _ => inferInstanceAs (Decidable (∀ _ ∈ _, _))

theorem Holds.fits (h : store.Holds serverId c) (hfits : store.Fits calls) :
    c.Fits serverId calls := by
  obtain rfl := h.serverId_eq
  intro k
  by_cases hk : k ∈ calls.filterMap (Call.target? store.node.serverId)
  · have hamount : store.amount k = c.amount k := by
      rw [amount, h.valueOf?_eq]
      rfl
    rw [← hamount]
    exact hfits k hk
  · rw [Call.added_of_not_mem hk, Int.add_zero]
    exact Int64.toInt_lt _

end Store

end CounterMesh
