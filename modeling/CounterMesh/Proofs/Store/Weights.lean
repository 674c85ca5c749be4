import CounterMesh.Proofs.OrdMap.Relisted
import CounterMesh.Proofs.Store.Totals

/-!
# Totals on any content

The total of a counter is the sum of what the rows of its slots weigh. A row of a
tombstone weighs nothing, a row of a node what its slot counts for, and a total
exists exactly if every row can be weighed. An entry that is put or removed changes
the sum by its own weight.
-/

namespace CounterMesh

namespace OrdMap

variable {α : Type} {stem key : Bytes}

theorem filter_key_eq (m : OrdMap Bytes α) (h : stem <+: key) :
    (m.entriesStarting stem).filter (fun e => e.1 = key) =
      ((m.get? key).map fun a => (key, a)).toList := by
  refine eq_of_sorted ((m.sorted_entriesStarting stem).sublist List.filter_sublist) ?_ ?_
  · cases m.get? key <;> simp
  · rintro ⟨k, a⟩
    rw [entriesStarting_eq_filter, List.mem_filter, List.mem_filter, ← get?_eq_some_iff,
      decide_eq_true_eq, List.isPrefixOf_iff_prefix, Option.mem_toList, Option.map_eq_some_iff]
    constructor
    · rintro ⟨⟨hget, _⟩, rfl⟩
      exact ⟨a, hget, rfl⟩
    · rintro ⟨_, hget, heq⟩
      cases heq
      exact ⟨⟨hget, h⟩, rfl⟩

theorem filter_key_ne (m : OrdMap Bytes α) (stem key : Bytes) :
    (m.entriesStarting stem).filter (fun e => !decide (e.1 = key)) =
      (m.erase key).entriesStarting stem := by
  refine eq_of_sorted ((m.sorted_entriesStarting stem).sublist List.filter_sublist)
    ((m.erase key).sorted_entriesStarting stem) ?_
  rintro ⟨k, a⟩
  rw [entriesStarting_eq_filter, entriesStarting_eq_filter, List.mem_filter, List.mem_filter,
    List.mem_filter, ← get?_eq_some_iff, ← get?_eq_some_iff, Bool.not_eq_true',
    decide_eq_false_iff_not]
  by_cases hk : k = key
  · simp [hk, get?_erase_self]
  · simp [hk, get?_erase_of_ne]

/-- A sum over the entries of a stem, with one of them put in front. -/
theorem sum_entriesStarting (f : Bytes × α → Int64) (m : OrdMap Bytes α) (h : stem <+: key) :
    ((m.entriesStarting stem).map f).sum =
      ((m.get? key).map fun a => f (key, a)).getD 0 +
        (((m.erase key).entriesStarting stem).map f).sum := by
  rw [sum_map_eq_filter f fun e => e.1 = key, filter_key_eq m h, filter_key_ne]
  congr 1
  cases m.get? key with
  | none => rfl
  | some a => simp only [Option.map_some, Option.toList_some, List.map_cons, List.map_nil,
      List.sum_cons, List.sum_nil, Int64.add_zero, Option.getD_some]

end OrdMap

namespace Index

variable {t : Transaction} {counterId : CounterId} {entries : PlainTree} {total : Int64}

/-- What a row of the slots adds to the total of its counter. -/
def weigh (row : Bytes × Bytes) : Except Error Int64 := do
  let key ← SlotKey.decode Layout.counters row.1
  match key.owner with
  | .tombstone => return 0
  | .node serverId =>
    return SlotValue.contribution ⟨serverId, key.sign, ← Stored.value Layout.counters row.2⟩

/-- What a row weighs, where one that cannot be weighed counts as zero. -/
def weight (row : Bytes × Bytes) : Int64 := (weigh row).toOption.getD 0

theorem weight_of_weigh {row : Bytes × Bytes} {w : Int64} (h : weigh row = .ok w) :
    weight row = w := by
  rw [weight, h]
  rfl

/-- What is computed from a list by its first element and its rest. -/
theorem map_bind_cons {ε α β : Type} {f : List α → β} {a : α} {g : β → β}
    (h : ∀ l, f (a :: l) = g (f l)) (x : Except ε (List α)) :
    (x >>= fun l => pure (a :: l)).map f = (x.map f).map g := by
  cases x with
  | error e => rfl
  | ok l => exact congrArg Except.ok (h l)

/-- The slots of rows are summed by weighing the rows. -/
theorem sum_nodeSlots (rows : List (Bytes × Bytes)) :
    (nodeSlots rows).map (fun slots => (slots.map SlotValue.contribution).sum) =
      (rows.mapM weigh).map List.sum := by
  have hweights (w : Int64) : ∀ l : List Int64, (w :: l).sum = w + l.sum := fun _ => List.sum_cons
  induction rows with
  | nil => rfl
  | cons row rest ih =>
      obtain ⟨key, bytes⟩ := row
      rw [List.mapM_cons, nodeSlots, weigh]
      cases SlotKey.decode Layout.counters key with
      | error e => rfl
      | ok key =>
          obtain ⟨counterId, owner, sign⟩ := key
          cases owner with
          | tombstone =>
              show _ = Except.map List.sum (rest.mapM weigh >>= fun ws => pure (0 :: ws))
              rw [map_bind_cons (g := id) fun _ => Int64.zero_add _, ← ih, Except.map_id]
              rfl
          | node serverId =>
              cases Stored.value Layout.counters bytes with
              | error e => rfl
              | ok value =>
                  let slot : SlotValue := ⟨serverId, sign, value⟩
                  have hslots : ∀ l : List SlotValue,
                      ((slot :: l).map SlotValue.contribution).sum =
                        slot.contribution + (l.map SlotValue.contribution).sum :=
                    fun _ => List.sum_cons
                  show Except.map _ (nodeSlots rest >>= fun slots => pure (slot :: slots)) =
                    Except.map _ (rest.mapM weigh >>= fun ws => pure (slot.contribution :: ws))
                  rw [map_bind_cons hslots, map_bind_cons (hweights _), ih]

theorem mapM_weigh {rows : List (Bytes × Bytes)} (h : ∀ row ∈ rows, ∃ w, weigh row = .ok w) :
    rows.mapM weigh = .ok (rows.map weight) :=
  mapM_eq_pure fun row hrow => by
    obtain ⟨w, hw⟩ := h row hrow
    rw [weight_of_weigh hw]
    exact hw

/-- All rows of a counter can be weighed, and they add up to this total. -/
structure Weighs (entries : PlainTree) (counterId : CounterId) (total : Int64) : Prop where
  legible : ∀ row ∈ entries.entriesStarting (Word.big counterId), ∃ w, weigh row = .ok w
  sum : ((entries.entriesStarting (Word.big counterId)).map weight).sum = total

/-- The total of a counter exists exactly if all its rows can be weighed, and is their weight. -/
theorem total_eq_ok_iff (h : t.plain Layout.counters = .ok entries) :
    Index.total t counterId = .ok total ↔ Weighs entries counterId total := by
  have htotal : Index.total t counterId =
      ((entries.entriesStarting (Word.big counterId)).mapM weigh).map List.sum := by
    rw [← sum_nodeSlots, Index.total, slots, Transaction.scanStarting, h]
    rfl
  rw [htotal]
  constructor
  · intro hsum
    have hrows : ∀ row ∈ entries.entriesStarting (Word.big counterId), ∃ w, weigh row = .ok w := by
      intro row hrow
      cases hweights : (entries.entriesStarting (Word.big counterId)).mapM weigh with
      | error e =>
          rw [hweights] at hsum
          cases hsum
      | ok ws =>
          obtain ⟨w, _, hw⟩ := exists_mem_of_mapM_eq_ok hweights row hrow
          exact ⟨w, hw⟩
    rw [mapM_weigh hrows] at hsum
    exact ⟨hrows, Except.ok.inj hsum⟩
  · rintro ⟨hrows, rfl⟩
    rw [mapM_weigh hrows]
    rfl

/-- A row of a node weighs what its slot counts for; under the reserved id it weighs nothing. -/
theorem weigh_place (p : Place) {bytes : Bytes} {value : Int64}
    (h : Word.little? bytes = some value) : weigh (p.bytes, bytes) =
      .ok (if p.serverId = .nil then 0
        else SlotValue.contribution ⟨p.serverId, p.sign, value⟩) := by
  rw [weigh, Place.decode_bytes]
  by_cases hnil : p.serverId = .nil
  · rw [if_pos hnil, Place.slot, Owner.ofServer, if_pos ((ServerId.isNil_iff _).2 hnil)]
    rfl
  · rw [if_neg hnil, Place.slot, Owner.ofServer, if_neg (mt (ServerId.isNil_iff _).1 hnil)]
    simp only [bind, Except.bind, Stored.value, h]
    rfl

theorem weigh_tombstone (counterId : CounterId) (bytes : Bytes) :
    weigh ((Place.tombstone counterId).bytes, bytes) = .ok 0 := by
  rw [weigh, Place.decode_bytes]
  rfl

/-- A row goes, and with it what it weighed. -/
theorem Weighs.erase (h : Weighs entries counterId total) {key : Bytes}
    (hkey : Word.big counterId <+: key) : Weighs (entries.erase key) counterId
      (total - ((entries.get? key).map fun bytes => weight (key, bytes)).getD 0) where
  legible := by
    intro row hrow
    rw [← OrdMap.filter_key_ne] at hrow
    exact h.legible row (List.mem_of_mem_filter hrow)
  sum := by
    rw [← h.sum, OrdMap.sum_entriesStarting weight entries hkey, Int64.add_comm,
      Int64.add_sub_cancel]

/-- Without its tombstone a counter weighs the same. -/
theorem Weighs.erase_tombstone (h : Weighs entries counterId total) :
    Weighs (entries.erase (Place.tombstone counterId).bytes) counterId total := by
  have herase := h.erase ((Place.prefix_bytes_iff counterId (.tombstone counterId)).2 rfl)
  have hzero : ((entries.get? (Place.tombstone counterId).bytes).map fun bytes =>
      weight ((Place.tombstone counterId).bytes, bytes)).getD 0 = 0 := by
    cases entries.get? (Place.tombstone counterId).bytes with
    | none => rfl
    | some bytes =>
        rw [Option.map_some, Option.getD_some]
        exact weight_of_weigh (weigh_tombstone counterId bytes)
  rwa [hzero, Int64.sub_zero] at herase

/-- A row that is put weighs in place of the one that was there. -/
theorem Weighs.insert (h : Weighs entries counterId total) {key bytes : Bytes} {w : Int64}
    (hkey : Word.big counterId <+: key) (hw : weigh (key, bytes) = .ok w) :
    Weighs (entries.insert key bytes) counterId
      (total - ((entries.get? key).map fun bytes => weight (key, bytes)).getD 0 + w) where
  legible := by
    rintro ⟨k, b⟩ hrow
    rw [OrdMap.entriesStarting_eq_filter, List.mem_filter, ← OrdMap.get?_eq_some_iff] at hrow
    obtain ⟨hget, hstem⟩ := hrow
    by_cases hk : k = key
    · subst hk
      rw [OrdMap.get?_insert_self, Option.some.injEq] at hget
      exact ⟨w, hget ▸ hw⟩
    · rw [OrdMap.get?_insert_of_ne _ _ hk] at hget
      refine h.legible (k, b) ?_
      rw [OrdMap.entriesStarting_eq_filter, List.mem_filter, ← OrdMap.get?_eq_some_iff]
      exact ⟨hget, hstem⟩
  sum := by
    rw [OrdMap.sum_entriesStarting weight _ hkey, OrdMap.erase_insert, (h.erase hkey).sum,
      OrdMap.get?_insert_self, Option.map_some, Option.getD_some, weight_of_weigh hw,
      Int64.add_comm]

/-- What an increment adds to: the number under a key, where a missing one counts as zero. -/
def Amount (entries : PlainTree) (key : Bytes) (amount : Int64) : Prop :=
  entries.get? key = none ∧ amount = 0 ∨
    ∃ bytes, entries.get? key = some bytes ∧ Word.little? bytes = some amount

/-- A slot that grows by the size of a delta under its sign changes the total by the delta, and
under the reserved id it changes nothing. -/
theorem Weighs.increment {p : Place} {amount delta : Int64} (h : Weighs entries p.counterId total)
    (hamount : Amount entries p.bytes amount) (hsign : p.sign = Sign.ofDelta delta) :
    Weighs (entries.insert p.bytes (Word.little (amount + delta.abs))) p.counterId
      (total + if p.serverId = .nil then 0 else delta) := by
  have hinsert := h.insert ((Place.prefix_bytes_iff p.counterId p).2 rfl)
    (weigh_place p (Word.little?_little (amount + delta.abs)))
  have hold : ((entries.get? p.bytes).map fun bytes => weight (p.bytes, bytes)).getD 0 =
      if p.serverId = .nil then 0 else SlotValue.contribution ⟨p.serverId, p.sign, amount⟩ := by
    rcases hamount with ⟨hnone, rfl⟩ | ⟨bytes, hsome, hvalue⟩
    · rw [hnone]
      split
      · rfl
      · cases p.sign with
        | positive => rfl
        | negative =>
            rw [SlotValue.contribution]
            exact Int64.neg_zero.symm
    · rw [hsome, Option.map_some, Option.getD_some, weight_of_weigh (weigh_place p hvalue)]
  rw [hold] at hinsert
  by_cases hnil : p.serverId = .nil
  · rw [if_pos hnil, if_pos hnil] at hinsert
    rw [if_pos hnil]
    rwa [Int64.sub_zero] at hinsert
  · rw [if_neg hnil, if_neg hnil, SlotValue.contribution_add, hsign,
      SlotValue.contribution_abs] at hinsert
    rw [← Int64.add_assoc, Int64.sub_add_cancel] at hinsert
    rwa [if_neg hnil]

end Index

end CounterMesh
