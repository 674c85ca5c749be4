import CounterMesh.Proofs.Store.Growth

/-!
# Deltas of a node

A node changes its counters by deltas: the size of a delta is added to the slot
of the node for the sign of the delta, which gets a fresh etag. A delta revives a
deleted counter, and it leaves the slots of all other nodes as they are.
-/

namespace CounterMesh

/-- A delta of a counter. -/
structure Delta where
  group : String
  name : String
  amount : Int64
  deriving DecidableEq

namespace Delta

/-- The slot of a node that the delta is added to. -/
def slot (own : ServerId) (d : Delta) : SlotName := ⟨d.group, d.name, own, Sign.ofDelta d.amount⟩

/-- The amounts that bring a total to zero, the newest first. The least total has no negation. -/
def clearing (total : Int64) : List Int64 :=
  if total = 0 then []
  else if total = Int64.minValue then [1, Int64.maxValue]
  else [-total]

theorem clearing_of_ne {total : Int64} (hzero : total ≠ 0) (hmin : total ≠ Int64.minValue) :
    clearing total = [-total] := by
  rw [clearing, if_neg hzero, if_neg hmin]

theorem clearing_of_ne_minValue {total : Int64} (hmin : total ≠ Int64.minValue) :
    clearing total = if -total = 0 then [] else [-total] := by
  by_cases hzero : total = 0
  · rw [hzero]
    rfl
  · have hneg : -total ≠ 0 := fun heq => hzero (by rw [← Int64.neg_neg (a := total), heq]; rfl)
    rw [clearing_of_ne hzero hmin, if_neg hneg]

/-- Only the least total takes two deltas. -/
theorem length_clearing_le_one {total : Int64} (hmin : total ≠ Int64.minValue) :
    (clearing total).length ≤ 1 := by
  rw [clearing_of_ne_minValue hmin]
  split
  · exact Nat.zero_le 1
  · exact Nat.le_refl 1

theorem length_clearing_le (total : Int64) : (clearing total).length ≤ 2 := by
  rw [clearing]
  split
  · exact Nat.zero_le 2
  · split
    · exact Nat.le_refl 2
    · exact Nat.le_succ 1

end Delta

namespace Catalog

variable {c : Catalog} {own : ServerId} {d : Delta} {deltas : List Delta} {group name : String}

/-- The catalog of a node after a delta. -/
def credit (own : ServerId) (c : Catalog) (d : Delta) : Catalog :=
  c.put d.group d.name own (Sign.ofDelta d.amount) (c.amount (d.slot own) + d.amount.abs)

/-- The catalog of a node after deltas, the newest first. -/
def credits (own : ServerId) (c : Catalog) (deltas : List Delta) : Catalog :=
  deltas.foldr (fun d c => c.credit own d) c

/-- A delta writes its slot and takes the tombstone of its counter away. -/
theorem slot_credit (hs : c.Sound) (hroom : c.HasRoom 1) (k : SlotName) :
    (c.credit own d).slot k =
      if k = d.slot own then some ⟨c.amount (d.slot own) + d.amount.abs, c.lastEtag + 1⟩
      else if k = .tombstone d.group d.name then none else c.slot k :=
  slot_put hs hroom k

theorem puts_credits (c : Catalog) (hown : own ≠ .nil) (deltas : List Delta) :
    Puts (fun k => ∃ d ∈ deltas, k = d.slot own) deltas.length c (c.credits own deltas) := by
  induction deltas with
  | nil => exact .refl 0 c
  | cons d older ih =>
      refine (ih.imp ?_).put (d.slot own) _ ⟨d, List.mem_cons_self, rfl⟩
        fun hnil => absurd hnil hown
      rintro _ ⟨d', hd', rfl⟩
      exact ⟨d', .tail _ hd', rfl⟩

/-- After deltas a catalog is sound, and has room for one more write if it had room for so many. -/
theorem Sound.credits (hs : c.Sound) (hown : own ≠ .nil) (deltas : List Delta) {count : Nat}
    (hlength : deltas.length ≤ count) (hroom : c.HasRoom (count + 1)) :
    (c.credits own deltas).Sound ∧ (c.credits own deltas).HasRoom 1 := by
  have hevolves : Evolves False count c (c.credits own deltas) :=
    ((puts_credits c hown deltas).mono hlength).evolves
  exact ⟨hevolves.sound hs (hroom.mono (Nat.le_add_right _ 1)), hevolves.hasRoom hroom⟩

theorem live_put_node {serverId : ServerId} (hnode : serverId ≠ .nil) {sign : Sign}
    {value : Int64} : (c.put group name serverId sign value).Live group name := by
  refine ⟨_, ids_put_self .., ?_⟩
  rw [deleted_put_iff]
  rintro (⟨_, hp⟩ | ⟨hne, _⟩)
  · exact hnode (congrArg Place.serverId hp)
  · exact hne rfl

/-- Deltas of a live counter leave it live. -/
theorem live_credits (hown : own ≠ .nil) (hlive : c.Live group name) (amounts : List Int64) :
    (c.credits own (amounts.map (Delta.mk group name))).Live group name := by
  cases amounts with
  | nil => exact hlive
  | cons amount older => exact live_put_node hown

end Catalog

end CounterMesh
