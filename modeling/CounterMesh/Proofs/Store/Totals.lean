import CounterMesh.Proofs.Store.Deltas
import CounterMesh.Proofs.Store.Isolation
import CounterMesh.Proofs.Store.Preserved
import CounterMesh.Proofs.Store.Reading

/-!
# Totals of local calls

The total of a counter is the wrapped sum of its slots, positive ones less
negative ones. A store changes one slot by the size of its delta, and so the
total by the delta, whatever the slots of other nodes hold and however far the
slots have wrapped. A reset stores the negation of the total, and a deletion
leaves a counter whose slots add up to zero, which is where the counter starts
again when it is revived.
-/

namespace CounterMesh

/-- A sum over a list is one over the elements that a test selects and one over the others. -/
theorem sum_map_eq_filter {α : Type} (f : α → Int64) (p : α → Bool) (l : List α) :
    (l.map f).sum = ((l.filter p).map f).sum + ((l.filter fun a => !p a).map f).sum := by
  induction l with
  | nil => rfl
  | cons a rest ih =>
      cases hp : p a <;> simp only [List.filter_cons, hp, List.map_cons, List.sum_cons, ih,
        Bool.not_true, Bool.not_false, if_true, Bool.false_eq_true, if_false] <;> ac_rfl

namespace SlotValue

/-- A delta is what its size counts for under its sign. -/
theorem contribution_abs (serverId : ServerId) (delta : Int64) :
    (mk serverId (Sign.ofDelta delta) delta.abs).contribution = delta := by
  have hmsb : delta.toBitVec.msb = decide (delta < 0) := by
    rw [BitVec.msb_eq_toInt, decide_eq_decide, Int64.lt_iff_toInt_lt, Int64.toInt_zero]
    exact Iff.rfl
  by_cases hneg : delta < 0
  · have habs : delta.abs = -delta := by
      refine Int64.toBitVec_inj.1 ((BitVec.abs_eq _).trans ?_)
      rw [hmsb, if_pos (decide_eq_true hneg), Int64.toBitVec_neg]
    rw [contribution, Sign.ofDelta, if_neg (Int64.not_le.2 hneg), habs]
    exact Int64.neg_neg
  · have habs : delta.abs = delta := by
      refine Int64.toBitVec_inj.1 ((BitVec.abs_eq _).trans ?_)
      rw [hmsb, if_neg (by simpa using hneg)]
    rw [contribution, Sign.ofDelta, if_pos (Int64.not_lt.1 hneg), habs]

theorem contribution_add (serverId : ServerId) (sign : Sign) (a b : Int64) :
    (mk serverId sign (a + b)).contribution =
      (mk serverId sign a).contribution + (mk serverId sign b).contribution := by
  cases sign with
  | positive => rfl
  | negative => exact Int64.neg_add.trans (Int64.sub_eq_add_neg _ _)

end SlotValue

namespace Catalog

variable {c c' : Catalog} {group name : String} {serverId : ServerId} {sign : Sign}
variable {slots slots' : List SlotValue} {total total' : Int64}

/-- The slot of a node among the listed ones, if it is there. -/
theorem Lists.filter_eq (h : c.Lists group name slots) (hnode : serverId ≠ .nil) :
    slots.filter (fun v => v.serverId = serverId ∧ v.sign = sign) =
      ((c.slot ⟨group, name, serverId, sign⟩).map fun cell =>
        ⟨serverId, sign, cell.value⟩).toList := by
  refine OrdMap.eq_of_sorted (h.sorted.sublist List.filter_sublist) ?_ ?_
  · cases c.slot ⟨group, name, serverId, sign⟩ <;> simp
  · rintro ⟨server, s, value⟩
    rw [List.mem_filter, h.mem_iff, decide_eq_true_eq, Option.mem_toList]
    constructor
    · rintro ⟨⟨_, hvalue⟩, rfl, rfl⟩
      obtain ⟨cell, hcell, rfl⟩ := Option.map_eq_some_iff.1 hvalue
      exact Option.map_eq_some_iff.2 ⟨cell, hcell, rfl⟩
    · intro hslot
      obtain ⟨cell, hcell, heq⟩ := Option.map_eq_some_iff.1 hslot
      obtain ⟨rfl, rfl, rfl⟩ := SlotValue.mk.inj heq
      exact ⟨⟨hnode, Option.map_eq_some_iff.2 ⟨cell, hcell, rfl⟩⟩, rfl, rfl⟩

/-- The sum of the listed slots, with one of them put in front. -/
theorem Lists.sum_eq (h : c.Lists group name slots) (hnode : serverId ≠ .nil) (sign : Sign) :
    (slots.map SlotValue.contribution).sum =
      (SlotValue.mk serverId sign (c.amount ⟨group, name, serverId, sign⟩)).contribution +
        ((slots.filter fun v => ¬ (v.serverId = serverId ∧ v.sign = sign)).map
          SlotValue.contribution).sum := by
  rw [sum_map_eq_filter SlotValue.contribution fun v => v.serverId = serverId ∧ v.sign = sign,
    h.filter_eq hnode, amount]
  simp only [decide_not]
  congr 1
  cases c.slot ⟨group, name, serverId, sign⟩ with
  | none =>
      cases sign with
      | positive => rfl
      | negative => exact Int64.neg_zero.symm
  | some cell => exact Int64.add_zero _

/-- The slots of a counter that belong to nodes add up to this total. -/
def Totals (c : Catalog) (group name : String) (total : Int64) : Prop :=
  ∃ slots, c.Lists group name slots ∧ (slots.map SlotValue.contribution).sum = total

theorem Totals.unique (h : c.Totals group name total) (h' : c.Totals group name total') :
    total = total' := by
  obtain ⟨slots, hlists, rfl⟩ := h
  obtain ⟨slots', hlists', rfl⟩ := h'
  rw [hlists.unique hlists']

/-- A counter that is not listed has no slots. -/
theorem lists_nil (hid : c.ids group name = none) : c.Lists group name [] where
  sorted := .nil
  mem_iff := by
    intro v
    rw [slot_of_not_listed (k := ⟨group, name, v.serverId, v.sign⟩) hid]
    simp

theorem totals_zero (hid : c.ids group name = none) : c.Totals group name 0 :=
  ⟨[], lists_nil hid, rfl⟩

/-- The trees list the slots of every counter. -/
theorem exists_lists {t : Transaction} (h : t.trees.Shows c.ledger) (group name : String) :
    ∃ slots, c.Lists group name slots := by
  cases hid : c.ids group name with
  | none => exact ⟨[], lists_nil hid⟩
  | some id =>
      obtain ⟨slots, _, hlists⟩ := index_slots h hid
      exact ⟨slots, hlists⟩

/-- The slots of every counter have a total. -/
theorem exists_totals {t : Transaction} (h : t.trees.Shows c.ledger) (group name : String) :
    ∃ total, c.Totals group name total := by
  obtain ⟨slots, hlists⟩ := exists_lists h group name
  exact ⟨_, slots, hlists, rfl⟩

/-- The total of a live counter is what a reader is told. -/
theorem Totals.index_totalOf {t : Transaction} (h : c.Totals group name total)
    (hshows : t.trees.Shows c.ledger) (hlive : c.Live group name) :
    Index.totalOf t group name = .ok total := by
  obtain ⟨slots, hlists, htotal⟩ := Catalog.index_totalOf hshows hlive
  rw [htotal, Totals.unique ⟨slots, hlists, rfl⟩ h]

/-- Catalogs that hold the same in the slots of nodes have the same total. -/
theorem Totals.congr (h : c.Totals group name total)
    (hslots : ∀ k : SlotName, k.Of group name → k.serverId ≠ .nil → c'.slot k = c.slot k) :
    c'.Totals group name total := by
  obtain ⟨slots, hlists, htotal⟩ := h
  refine ⟨slots, ⟨hlists.sorted, fun v => ?_⟩, htotal⟩
  rw [hlists.mem_iff]
  refine and_congr_right fun hnode => ?_
  rw [hslots ⟨group, name, v.serverId, v.sign⟩ ⟨rfl, rfl⟩ hnode]

/-- One slot changes, and the total by as much. -/
theorem Totals.change (h : c.Totals group name total) (hnode : serverId ≠ .nil) (sign : Sign)
    {delta : Int64} (hlists' : ∃ slots', c'.Lists group name slots')
    (hslots : ∀ k : SlotName, k.Of group name → k.serverId ≠ .nil →
      k ≠ ⟨group, name, serverId, sign⟩ → c'.slot k = c.slot k)
    (hslot : (SlotValue.mk serverId sign
        (c'.amount ⟨group, name, serverId, sign⟩)).contribution =
      (SlotValue.mk serverId sign (c.amount ⟨group, name, serverId, sign⟩)).contribution +
        delta) : c'.Totals group name (total + delta) := by
  obtain ⟨slots, hlists, rfl⟩ := h
  obtain ⟨slots', hlists'⟩ := hlists'
  refine ⟨slots', hlists', ?_⟩
  have hothers : slots'.filter (fun v => ¬ (v.serverId = serverId ∧ v.sign = sign)) =
      slots.filter fun v => ¬ (v.serverId = serverId ∧ v.sign = sign) := by
    refine OrdMap.eq_of_sorted (hlists'.sorted.sublist List.filter_sublist)
      (hlists.sorted.sublist List.filter_sublist) fun v => ?_
    rw [List.mem_filter, List.mem_filter, hlists'.mem_iff, hlists.mem_iff, decide_eq_true_eq]
    refine and_congr_left fun hne => and_congr_right fun hv => ?_
    rw [hslots ⟨group, name, v.serverId, v.sign⟩ ⟨rfl, rfl⟩ hv]
    rintro heq
    obtain ⟨_, _, hserver, hsign⟩ := SlotName.mk.inj heq
    exact hne ⟨hserver, hsign⟩
  rw [hlists'.sum_eq hnode sign, hlists.sum_eq hnode sign, hothers, hslot]
  ac_rfl

/-- What a write of a slot adds to. -/
theorem Sound.valueAt_placeFor (hs : c.Sound) (hroom : c.HasRoom 1) :
    (c.valueAt (c.placeFor group name serverId sign)).getD 0 =
      c.amount ⟨group, name, serverId, sign⟩ := by
  rw [amount, hs.slot_eq_cells hroom]
  rfl

/-- A slot that grows by the size of a delta under its sign changes the total by the delta. -/
theorem Totals.put_delta (h : c.Totals group name total) (hs : c.Sound) (hroom : c.HasRoom 1)
    (hnode : serverId ≠ .nil) (delta : Int64)
    (hlists : ∃ slots, (c.put group name serverId (Sign.ofDelta delta)
      (c.amount ⟨group, name, serverId, Sign.ofDelta delta⟩ + delta.abs)).Lists group name slots) :
    (c.put group name serverId (Sign.ofDelta delta)
      (c.amount ⟨group, name, serverId, Sign.ofDelta delta⟩ + delta.abs)).Totals group name
        (total + delta) := by
  refine h.change hnode (Sign.ofDelta delta) hlists ?_ ?_
  · rintro k _ hk hne
    rw [slot_put hs hroom, if_neg hne, if_neg]
    rintro rfl
    exact hk rfl
  · rw [amount_eq_of_slot ((slot_put hs hroom _).trans (if_pos rfl)),
      SlotValue.contribution_add, SlotValue.contribution_abs]

/-- A tombstone does not count. -/
theorem Totals.put_tombstone (h : c.Totals group name total) (hs : c.Sound) (hroom : c.HasRoom 1)
    {ticks : Int64} : (c.put group name .nil .positive ticks).Totals group name total := by
  refine h.congr fun k _ hk => ?_
  have hne : k ≠ .tombstone group name := by
    rintro rfl
    exact hk rfl
  exact (slot_put hs hroom k).trans ((if_neg hne).trans (if_neg hne))

end Catalog

/-- The trees of the writer present what deltas of these amounts, the newest first, have made of one
counter of `c`, whose slots add up to this total now. -/
structure Session.Counts (s : Session) (home : Node) (c : Catalog) (group name : String)
    (amounts : List Int64) (total : Int64) : Prop where
  totals : (c.credits home.serverId (amounts.map (Delta.mk group name))).Totals group name total
  shows : s.Shows home (c.credits home.serverId (amounts.map (Delta.mk group name))).ledger

/-- The trees of the writer present what a deletion has made of a counter of `c` with this total:
the deltas that bring it to zero, and a tombstone of this time. -/
structure Session.Closes (s : Session) (home : Node) (c : Catalog) (group name : String)
    (total ticks : Int64) : Prop where
  cleared : (c.credits home.serverId
    ((Delta.clearing total).map (Delta.mk group name))).Totals group name 0
  shows : s.Shows home ((c.credits home.serverId
    ((Delta.clearing total).map (Delta.mk group name))).put group name .nil .positive ticks).ledger

/-- The trees of the writer present a catalog that comes from `c` by at most `k` writes of this
node's own slots of one counter, which is live now and has this total. -/
def Session.Brought (s : Session) (home : Node) (c : Catalog) (group name : String) (k : Nat)
    (total : Int64) : Prop :=
  ∃ c', Catalog.Puts ((Call.reset group name).Touches home.serverId) k c c' ∧
    c'.Live group name ∧ c'.Totals group name total ∧ s.Shows home c'.ledger

/-- The trees of the writer present a catalog that comes from `c` by at most `k` writes of a
deletion of one counter, which has a tombstone of this time now and a total of zero. -/
def Session.Buried (s : Session) (home : Node) (c : Catalog) (group name : String) (k : Nat)
    (ticks : Int64) : Prop :=
  ∃ c', Catalog.Puts ((Call.delete group name).Touches home.serverId) k c c' ∧
    (c'.slot (.tombstone group name)).map Cell.value = some ticks ∧
    c'.Totals group name 0 ∧ s.Shows home c'.ledger

theorem Catalog.dead_of_tombstone {c : Catalog} {group name : String} {ticks : Int64}
    (h : (c.slot (.tombstone group name)).map Cell.value = some ticks) : c.Dead group name := by
  rw [Dead, ← Option.isSome_map (f := Cell.value), h]
  rfl

theorem Catalog.Dead.not_live {c : Catalog} {group name : String} (h : c.Dead group name) :
    ¬ c.Live group name := fun hlive => hlive.not_dead h

namespace Session

variable {s : Session} {home : Node} {c : Catalog} {group name : String} {amounts : List Int64}
variable {total ticks : Int64} {k : Nat}

/-- Deltas of one counter write its own slots. -/
theorem puts_amounts (c : Catalog) (group name : String) (hnode : home.serverId ≠ .nil)
    (amounts : List Int64) :
    Catalog.Puts ((Call.reset group name).Touches home.serverId) amounts.length c
      (c.credits home.serverId (amounts.map (Delta.mk group name))) := by
  have hputs := Catalog.puts_credits c hnode (amounts.map (Delta.mk group name))
  rw [List.length_map] at hputs
  refine hputs.imp ?_
  rintro _ ⟨d, hd, rfl⟩
  obtain ⟨amount, _, rfl⟩ := List.mem_map.1 hd
  exact ⟨⟨rfl, rfl⟩, rfl⟩

/-- The deltas that clear a counter leave room for its tombstone. -/
theorem sound_clearing (group name : String) (total : Int64) (hs : c.Sound)
    (hnode : home.serverId ≠ .nil) (hroom : c.HasRoom 3) :
    (c.credits home.serverId ((Delta.clearing total).map (Delta.mk group name))).Sound ∧
      (c.credits home.serverId ((Delta.clearing total).map (Delta.mk group name))).HasRoom 1 := by
  have hlength : ((Delta.clearing total).map (Delta.mk group name)).length ≤ 2 := by
    rw [List.length_map]
    exact Delta.length_clearing_le total
  exact hs.credits hnode _ hlength hroom

theorem Counts.start (htotal : c.Totals group name total) (h : s.Shows home c.ledger) :
    s.Counts home c group name [] total := ⟨htotal, h⟩

theorem Counts.brought (h : s.Counts home c group name amounts total)
    (hnode : home.serverId ≠ .nil) (hle : amounts.length ≤ k)
    (hlive : (c.credits home.serverId (amounts.map (Delta.mk group name))).Live group name) :
    s.Brought home c group name k total :=
  ⟨_, (puts_amounts c group name hnode amounts).mono hle, hlive, h.totals, h.shows⟩

theorem Closes.buried (h : s.Closes home c group name total ticks) (hs : c.Sound)
    (hnode : home.serverId ≠ .nil) (hroom : c.HasRoom 3) :
    s.Buried home c group name 3 ticks := by
  have hputs := (puts_amounts c group name hnode (Delta.clearing total)).mono
    (Delta.length_clearing_le total)
  have hdelete : Catalog.Puts ((Call.delete group name).Touches home.serverId) 2 c _ :=
    hputs.imp fun _ htouches => ⟨htouches.1, .inl htouches.2⟩
  obtain ⟨hs', hroom'⟩ := sound_clearing group name total hs hnode hroom
  refine ⟨_, hdelete.put (.tombstone group name) ticks ⟨SlotName.of_tombstone .., .inr rfl⟩
    fun _ => rfl, ?_, h.cleared.put_tombstone hs' hroom', h.shows⟩
  exact congrArg (Option.map Cell.value)
    ((Catalog.slot_put hs' hroom' (.tombstone group name)).trans (if_pos rfl))

end Session

namespace Write

variable {s : Session} {home : Node} {c : Catalog} {group name : String} {total : Int64}
variable {amounts : List Int64}

section Clearing

variable {limit : Nat} {kept : List Int64 → Int64 → Session → Prop}

/-- What is kept while deltas of a counter are stored: the amounts so far, the newest first, and the
total that they lead to. There is room for `limit` of them. -/
def Extends (group name : String) (limit : Nat) (kept : List Int64 → Int64 → Session → Prop) :
    Prop :=
  ∀ amounts total delta s, kept amounts total s → amounts.length < limit →
    delta ≠ Int64.minValue →
    Returns (store group name delta) s fun _ s' => kept (delta :: amounts) (total + delta) s'

theorem Extends.mono {limit' : Nat} (h : Extends group name limit kept) (hle : limit' ≤ limit) :
    Extends group name limit' kept :=
  fun amounts total delta s hkept hlt => h amounts total delta s hkept (hlt.trans_le hle)

variable (h : s.Shows home c.ledger) (hlive : c.Live group name)
variable (htotal : c.Totals group name total)

include h hlive htotal

/-- A reset stores the negation of the total, unless that is zero. -/
theorem returns_resetLive (hextends : Extends group name 1 kept) (hmin : total ≠ Int64.minValue)
    (hkept : kept [] total s) :
    Returns (resetLive group name) s fun delta s' =>
      delta = -total ∧ kept (Delta.clearing total) 0 s' := by
  refine (returns_query (htotal.index_totalOf h.trees hlive)).bind ?_
  rintro total _ ⟨rfl, rfl⟩
  by_cases hzero : total = 0
  · simp only [hzero, if_true]
    subst hzero
    exact .pure ⟨Int64.neg_zero.symm, hkept⟩
  · simp only [hzero, hmin, if_false]
    have hneg : -total ≠ Int64.minValue := by
      intro heq
      rw [← Int64.neg_neg (a := total), heq] at hmin
      exact hmin (by decide)
    refine (hextends _ _ _ _ hkept Nat.one_pos hneg).bind ?_
    intro _ s' hkept'
    rw [Int64.add_right_neg] at hkept'
    rw [Delta.clearing_of_ne hzero hmin]
    exact .pure ⟨rfl, hkept'⟩

theorem returns_reset_of_extends (hextends : Extends group name 1 kept)
    (hmin : total ≠ Int64.minValue) (hkept : kept [] total s) :
    Returns (reset group name) s fun delta s' =>
      delta = -total ∧ kept (Delta.clearing total) 0 s' := by
  refine (returns_checkLive h hlive).bind ?_
  rintro _ _ rfl
  exact returns_resetLive h hlive htotal hextends hmin hkept

/-- A deletion stores the amounts that bring the total to zero before it leaves a tombstone. -/
theorem returns_delete_of_extends (hextends : Extends group name 2 kept) (hkept : kept [] total s)
    {post : Session → Prop}
    (hlast : ∀ s', kept (Delta.clearing total) 0 s' → Returns (do
      let ticks := ticksOf (← now)
      let _ ← merge group name .tombstone .positive (.tombstone ticks)
      record ⟨group, name, .delete, .nil⟩) s' fun _ => post) :
    Returns (delete group name) s fun _ => post := by
  refine (returns_checkLive h hlive).bind ?_
  rintro _ _ rfl
  refine (returns_query (htotal.index_totalOf h.trees hlive)).bind ?_
  rintro total s ⟨rfl, rfl⟩
  by_cases hmin : total = Int64.minValue
  · simp only [hmin, if_true]
    subst hmin
    refine (hextends _ _ _ _ hkept Nat.two_pos (by decide)).bind ?_
    intro _ s₁ h₁
    refine (hextends _ _ _ _ h₁ Nat.one_lt_two (by decide)).bind ?_
    exact fun _ s₂ h₂ => hlast s₂ h₂
  · simp only [hmin, if_false]
    refine (returns_resetLive h hlive htotal (hextends.mono (Nat.le_succ 1)) hmin hkept).bind ?_
    exact fun _ s₁ h₁ => hlast s₁ h₁.2

end Clearing

section Local

variable (hs : c.Sound) (hnode : home.serverId ≠ .nil)

include hs hnode

/-- A store is one more delta, or is refused. -/
theorem counts_store_ends (h : s.Counts home c group name amounts total)
    (hroom : c.HasRoom (amounts.length + 1)) (delta : Int64) :
    Ends (store group name delta) s
      (fun _ s' => s'.Counts home c group name (delta :: amounts) (total + delta))
      fun s' => ¬ (Named group name ∧ delta ≠ Int64.minValue) ∧ s' = s := by
  obtain ⟨hs', hroom'⟩ := hs.credits hnode (amounts.map (Delta.mk group name))
    (List.length_map _).le hroom
  refine (store_ends h.shows hs' hroom' hnode group name delta).mono ?_ fun _ => id
  rintro _ s' ⟨_, _, h'⟩
  rw [hs'.valueAt_placeFor hroom'] at h'
  exact ⟨h.totals.put_delta hs' hroom' hnode delta (Catalog.exists_lists h'.trees group name), h'⟩

theorem counts_store (h : s.Counts home c group name amounts total)
    (hroom : c.HasRoom (amounts.length + 1)) (hnamed : Named group name) {delta : Int64}
    (hdelta : delta ≠ Int64.minValue) :
    Returns (store group name delta) s fun _ s' =>
      s'.Counts home c group name (delta :: amounts) (total + delta) := by
  rcases counts_store_ends hs hnode h hroom delta with hreturns | ⟨_, _, _, hrefused, _⟩
  · exact hreturns
  · exact absurd ⟨hnamed, hdelta⟩ hrefused

/-- A store changes the total by its delta, or is refused. -/
theorem store_total_ends (h : s.Shows home c.ledger) (hroom : c.HasRoom 1) (delta : Int64)
    (htotal : c.Totals group name total) :
    Ends (store group name delta) s
      (fun _ s' => s'.Brought home c group name 1 (total + delta))
      fun s' => ¬ (Named group name ∧ delta ≠ Int64.minValue) ∧ s' = s :=
  (counts_store_ends hs hnode (.start htotal h) hroom delta).mono
    (fun _ _ h' => h'.brought hnode (Nat.le_refl 1) (Catalog.live_put_node hnode)) fun _ => id

theorem extends_counts {limit : Nat} (hroom : c.HasRoom limit) (hnamed : Named group name) :
    Extends group name limit fun amounts total s => s.Counts home c group name amounts total :=
  fun _ _ _ _ h hlt hdelta => counts_store hs hnode h (hroom.mono hlt) hnamed hdelta

omit hs hnode in
/-- The least total has no negation. -/
theorem refuses_resetLive (h : s.Shows home c.ledger) (hlive : c.Live group name)
    (htotal : c.Totals group name Int64.minValue) :
    Refuses (resetLive group name) s (.counter (.deltaOutOfRange Int64.minValue)) := by
  refine (returns_query (htotal.index_totalOf h.trees hlive)).bind_refuses ?_
  rintro _ _ ⟨rfl, rfl⟩
  exact ⟨rfl, (refuses_throw _).bind⟩

/-- A reset brings the total to zero by its negation, unless it has none. -/
theorem counts_reset (h : s.Shows home c.ledger) (hn : c.AllNamed) (hroom : c.HasRoom 1)
    (hlive : c.Live group name) (htotal : c.Totals group name total)
    (hmin : total ≠ Int64.minValue) :
    Returns (reset group name) s fun delta s' =>
      delta = -total ∧ s'.Counts home c group name (Delta.clearing total) 0 :=
  returns_reset_of_extends h hlive htotal (extends_counts hs hnode hroom (hn.live hs hlive)) hmin
    (.start htotal h)

omit hs hnode in
theorem refuses_reset (h : s.Shows home c.ledger) (hlive : c.Live group name)
    (htotal : c.Totals group name Int64.minValue) :
    Refuses (reset group name) s (.counter (.deltaOutOfRange Int64.minValue)) := by
  refine (returns_checkLive h hlive).bind_refuses ?_
  rintro _ _ rfl
  exact ⟨rfl, refuses_resetLive h hlive htotal⟩

/-- A reset goes through for a live counter with any other total than the least one. -/
theorem counts_reset_ends (h : s.Shows home c.ledger) (hn : c.AllNamed) (hroom : c.HasRoom 1)
    (htotal : c.Totals group name total) :
    Ends (reset group name) s
      (fun delta s' => (c.Live group name ∧ total ≠ Int64.minValue) ∧ delta = -total ∧
        s'.Counts home c group name (Delta.clearing total) 0)
      fun s' => s' = s := by
  by_cases hlive : c.Live group name
  · by_cases hmin : total = Int64.minValue
    · subst hmin
      exact .inr ⟨_, (refuses_reset h hlive htotal).fails rfl⟩
    · exact .inl ((counts_reset hs hnode h hn hroom hlive htotal hmin).mono
        fun _ _ h' => ⟨⟨hlive, hmin⟩, h'⟩)
  · exact .inr ⟨_, ((refuses_checkLive h hlive).bind).fails rfl⟩

omit hs in
theorem brought_of_clearing (hlive : c.Live group name) (hmin : total ≠ Int64.minValue)
    (h : s.Counts home c group name (Delta.clearing total) 0) :
    s.Brought home c group name 1 0 :=
  h.brought hnode (Delta.length_clearing_le_one hmin) (Catalog.live_credits hnode hlive _)

theorem returns_reset (h : s.Shows home c.ledger) (hn : c.AllNamed) (hroom : c.HasRoom 1)
    (hlive : c.Live group name) (htotal : c.Totals group name total)
    (hmin : total ≠ Int64.minValue) :
    Returns (reset group name) s fun delta s' =>
      delta = -total ∧ s'.Brought home c group name 1 0 :=
  (counts_reset hs hnode h hn hroom hlive htotal hmin).mono fun _ _ h' =>
    ⟨h'.1, brought_of_clearing hnode hlive hmin h'.2⟩

theorem reset_ends (h : s.Shows home c.ledger) (hn : c.AllNamed) (hroom : c.HasRoom 1)
    (htotal : c.Totals group name total) :
    Ends (reset group name) s
      (fun delta s' => delta = -total ∧ s'.Brought home c group name 1 0) fun s' => s' = s :=
  (counts_reset_ends hs hnode h hn hroom htotal).mono
    (fun _ _ h' => ⟨h'.2.1, brought_of_clearing hnode h'.1.1 h'.1.2 h'.2.2⟩) fun _ => id

/-- The last step of a deletion: a counter with a total of zero gets its tombstone. -/
theorem closes_tombstone (h : s.Counts home c group name (Delta.clearing total) 0)
    (hroom : c.HasRoom 3) :
    Returns (do
      let ticks := ticksOf (← now)
      let _ ← merge group name .tombstone .positive (.tombstone ticks)
      record ⟨group, name, .delete, .nil⟩) s fun _ s' =>
        s'.Closes home c group name total (ticksOf s.node.clock.now.1) := by
  obtain ⟨hs', hroom'⟩ := Session.sound_clearing group name total hs hnode hroom
  refine returns_now.bind ?_
  rintro _ _ ⟨rfl, rfl⟩
  refine (returns_merge_tombstone (h.shows.withClock _) hs' hroom' group name _).bind ?_
  rintro _ s₂ ⟨_, h₂⟩
  refine (returns_record _).mono ?_
  rintro _ _ rfl
  exact ⟨h.totals, h₂.withChanges _⟩

/-- A deletion of a live counter brings the total to zero and leaves a tombstone with the time of
the clock. -/
theorem closes_delete (h : s.Shows home c.ledger) (hn : c.AllNamed) (hroom : c.HasRoom 3)
    (hlive : c.Live group name) (htotal : c.Totals group name total) :
    Returns (delete group name) s fun _ s' =>
      s'.Closes home c group name total (ticksOf s.node.clock.now.1) := by
  have hextends : Extends group name 2 fun amounts total s' =>
      s'.Counts home c group name amounts total ∧ s'.node.clock = s.node.clock := by
    rintro amounts total delta s₁ ⟨h₁, hclock⟩ hlt hdelta
    have hcounts := extends_counts hs hnode (hroom.mono (Nat.le_succ 2)) (hn.live hs hlive) amounts
      total delta s₁ h₁ hlt hdelta
    exact (hcounts.and_ends (preservesClock_store delta s₁)).mono
      fun _ _ h' => ⟨h'.1, h'.2.trans hclock⟩
  refine returns_delete_of_extends h hlive htotal hextends ⟨.start htotal h, rfl⟩ ?_
  rintro s₁ ⟨h₁, hclock⟩
  rw [← hclock]
  exact closes_tombstone hs hnode h₁ hroom

/-- A deletion goes through for a live counter. -/
theorem closes_delete_ends (h : s.Shows home c.ledger) (hn : c.AllNamed) (hroom : c.HasRoom 3)
    (htotal : c.Totals group name total) :
    Ends (delete group name) s
      (fun _ s' => c.Live group name ∧
        s'.Closes home c group name total (ticksOf s.node.clock.now.1))
      fun s' => s' = s := by
  by_cases hlive : c.Live group name
  · exact .inl ((closes_delete hs hnode h hn hroom hlive htotal).mono fun _ _ h' => ⟨hlive, h'⟩)
  · exact .inr ⟨_, ((refuses_checkLive h hlive).bind).fails rfl⟩

theorem returns_deleteLive (h : s.Shows home c.ledger) (hn : c.AllNamed) (hroom : c.HasRoom 3)
    (hlive : c.Live group name) :
    Returns (delete group name) s fun _ s' =>
      s'.Buried home c group name 3 (ticksOf s.node.clock.now.1) := by
  obtain ⟨total, htotal⟩ := Catalog.exists_totals h.trees group name
  exact (closes_delete hs hnode h hn hroom hlive htotal).mono
    fun _ _ h' => h'.buried hs hnode hroom

theorem delete_ends (h : s.Shows home c.ledger) (hn : c.AllNamed) (hroom : c.HasRoom 3) :
    Ends (delete group name) s
      (fun _ s' => s'.Buried home c group name 3 (ticksOf s.node.clock.now.1))
      fun s' => s' = s := by
  obtain ⟨total, htotal⟩ := Catalog.exists_totals h.trees group name
  exact (closes_delete_ends hs hnode h hn hroom htotal).mono
    (fun _ _ h' => h'.2.buried hs hnode hroom) fun _ => id

end Local

end Write

end CounterMesh
