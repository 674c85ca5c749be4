import CounterMesh.Proofs.Replication.Redelivery

/-!
# Entries that are passed over

An entry is passed over if its slot holds its value, and if its counter is
deleted or live as the entry would have it. It reads the slot under the sign that
the entry names. A write puts every tombstone under one sign, so an entry under
the reserved id that names the other sign is never passed over, not even where
its tombstone is in place. For all other foreign entries the test is exact: those
are passed over whose write would change nothing but etags.
-/

namespace CounterMesh

/-- The writers agree about which counters there are, what their slots hold, which are deleted and
when. -/
def Session.SameStatus (s s' : Session) : Prop :=
  ∀ name ∈ Catalog.statusTrees,
    s'.writer.transaction.trees.get? name = s.writer.transaction.trees.get? name

instance (s s' : Session) : Decidable (s.SameStatus s') :=
  inferInstanceAs (Decidable (∀ name ∈ Catalog.statusTrees,
    s'.writer.transaction.trees.get? name = s.writer.transaction.trees.get? name))

namespace Catalog

variable {c c' : Catalog} {own : ServerId} {e : FeedEntry}

/-- A foreign entry that is passed over would change nothing but etags. -/
theorem sameCounters_put_of_knows (hs : c.Sound) (hroom : c.HasRoom 1)
    (hforeign : e.serverId ≠ own) (hknows : c.knows own e = true) :
    SameCounters c
      (c.put e.group e.name e.serverId (e.sign.under e.serverId) e.value) := by
  obtain ⟨hvalue, _⟩ := (knows_iff.1 hknows).resolve_left hforeign
  obtain ⟨cell, hcell, _⟩ := Option.map_eq_some_iff.1 hvalue
  obtain ⟨id, hid, _⟩ := slot_eq_some_iff.1 hcell
  refine .of_slots hs (hs.put hroom (Sign.under_nil e.sign)) (takesNoId_put hid _ _ _).ids
    fun k => ?_
  rw [value_put_target hs hroom hforeign, sets_of_knows hs hknows]

/-- What a foreign entry writes is in place already, if the values are as before. -/
theorem knows_of_values_eq (hs : c.Sound) (hroom : c.HasRoom 1)
    (hreserved : e.serverId = .nil → e.sign = .positive)
    (hvalues : (c.put e.group e.name e.serverId (e.sign.under e.serverId) e.value).valueAt =
      c.valueAt) : c.knows own e = true := by
  refine (knows_iff_inPlace hreserved).2 (.inr ⟨?_, fun hnode hdead => ?_⟩)
  · have hsign : e.sign.under e.serverId = e.sign := by
      by_cases hnil : e.serverId = .nil
      · rw [Sign.under_nil e.sign hnil, hreserved hnil]
      · exact Sign.under_node e.sign hnil
    rw [hsign] at hvalues
    have hwritten := congrFun hvalues (c.placeFor e.group e.name e.serverId e.sign)
    rw [valueAt, cells_put_self] at hwritten
    rw [hs.slot_eq_cells hroom]
    exact hwritten.symm
  · have hne : c.placeFor e.group e.name e.serverId (e.sign.under e.serverId) ≠
        .tombstone (c.idFor e.group e.name) := fun heq => hnode (congrArg Place.serverId heq)
    have hgone := congrFun hvalues (.tombstone (c.idFor e.group e.name))
    rw [valueAt, cells_put_tombstone _ _ _ _ _ _ hne] at hgone
    have hslot : (c.slot (.tombstone e.group e.name)).map Cell.value = none := by
      rw [hs.slot_eq_cells hroom]
      exact hgone.symm
    have hdead' : c.Dead e.slotName.group e.slotName.name := hdead
    rw [Dead, ← Option.isSome_map (f := Cell.value)] at hdead'
    have hsome : ((c.slot (.tombstone e.group e.name)).map Cell.value).isSome = true := hdead'
    rw [hslot] at hsome
    cases hsome

/-- The test is exact but for tombstones under the sign that they do not have. -/
theorem knows_iff_sameCounters (hs : c.Sound) (hroom : c.HasRoom 1) (hforeign : e.serverId ≠ own) :
    c.knows own e = true ↔
      SameCounters c (c.put e.group e.name e.serverId (e.sign.under e.serverId) e.value) ∧
        (e.serverId = .nil → e.sign = .positive) := by
  constructor
  · exact fun hknows => ⟨sameCounters_put_of_knows hs hroom hforeign hknows,
      sign_of_knows hs hforeign hknows⟩
  · exact fun ⟨hsame, hreserved⟩ =>
      knows_of_values_eq hs hroom hreserved hsame.values

/-- Trees that say the same of all counters hold the same counters. -/
theorem sameCounters_put_iff {group name : String} {serverId : ServerId} {sign : Sign}
    {value : Int64} {s s' : Session} {home home' : Node} (hs : c.Sound) (hroom : c.HasRoom 1)
    (hshows : s.Shows home c.ledger)
    (hshows' : s'.Shows home' (c.put group name serverId sign value).ledger) :
    SameCounters c (c.put group name serverId sign value) ↔ s.SameStatus s' := by
  constructor
  · exact fun h _ hname => h.status_eq hshows.trees hshows'.trees hname
  · intro h
    have hvalues : (c.put group name serverId sign value).valueAt = c.valueAt := by
      funext p
      refine Option.ext fun value => ?_
      exact hshows'.trees.plain_iff_of_get?_eq hshows.trees (c := .values)
        (h Layout.counters (by decide)) p value
    refine ⟨?_, hvalues⟩
    -- The slot is written where it was before, so its counter had its id before.
    have hwritten := congrFun hvalues (c.placeFor group name serverId sign)
    rw [valueAt, cells_put_self] at hwritten
    obtain ⟨cell, hcell, _⟩ := Option.map_eq_some_iff.1 hwritten.symm
    rw [← hs.slot_eq_cells hroom ⟨group, name, serverId, sign⟩] at hcell
    obtain ⟨id, hid, _⟩ := slot_eq_some_iff.1 hcell
    exact (takesNoId_put hid _ _ _).ids

end Catalog

namespace Stage

/-- In every state of a run a foreign entry of a counter with a name is skipped exactly if its write
would change nothing of any counter but etags, unless it names the sign that no tombstone has. -/
theorem Reachable.skips_iff_unchanged {engine : Engine} {s : Session}
    (h : Reachable (writing engine s)) (sender : ServerId) {e : FeedEntry}
    (hnamed : Named e.group e.name) (hforeign : e.serverId ≠ s.node.serverId)
    (hetag : s.writer.lastEtag.toNat + 1 < UInt64.size)
    (hcounterId : s.writer.lastCounterId.toNat + 1 < UInt64.size) :
    ∃ action stored outcome s',
      (Write.storeReplicated e.group e.name e.serverId e.sign e.value).run s = .ok action stored ∧
      (Write.applyMessage ⟨sender, [e]⟩).run s = .ok outcome s' ∧
      outcome.applied + outcome.skipped = 1 ∧
      (outcome.skipped = 1 ↔
        s.SameStatus stored ∧ (e.serverId = .nil → e.sign = .positive)) := by
  obtain ⟨base, cur, hpresents⟩ := h.presents
  obtain ⟨hs, _, home, _, hshows⟩ := hpresents.carries
  rw [hshows.lastEtag] at hetag
  rw [hshows.lastCounterId] at hcounterId
  rw [hshows.serverId_eq] at hforeign
  have hroom : cur.HasRoom 1 := ⟨hetag, hcounterId⟩
  obtain ⟨action, stored, hstored, _, hshows'⟩ :=
    (Write.storeReplicated_ends hshows hs hroom e.group e.name e.serverId e.sign
      e.value).resolve_right fun ⟨_, _, _, hunnamed, _⟩ => hunnamed hnamed
  obtain ⟨outcome, s', happly, hcounts, _⟩ := Write.returns_applyMessage ⟨sender, [e]⟩ hshows hs
    (by simpa using hnamed) hroom
  have happlied : outcome.applied = (if cur.knows home.serverId e then 0 else 1) := hcounts.applied
  have hall : outcome.applied + outcome.skipped = 1 := hcounts.all
  refine ⟨action, stored, outcome, s', hstored, happly, hall, ?_⟩
  rw [← Catalog.sameCounters_put_iff hs hroom hshows hshows',
    ← Catalog.knows_iff_sameCounters hs hroom hforeign]
  cases hknows : cur.knows home.serverId e with
  | true =>
      rw [hknows, if_pos rfl] at happlied
      exact iff_of_true (by omega) rfl
  | false =>
      rw [hknows, if_neg Bool.false_ne_true] at happlied
      exact iff_of_false (by omega) Bool.false_ne_true

/-- A message with an entry that deletes the counter, under either sign. -/
def deletion (sign : Sign) : Message where
  serverId := .ofByte 9
  entries := [⟨"group", "name", .nil, sign, 100, 7⟩]

/-- Where a tombstone is in place, the entry that brings it with its own sign is skipped, and its
write changes nothing. -/
theorem skips_a_tombstone_in_place : ∃ (s s' stored : Session) (action : ChangeAction)
    (outcome : Applied),
    (Write.storeReplicated "group" "name" .nil .positive 100).run s = .ok action stored ∧
    (Write.applyMessage (deletion .positive)).run s = .ok outcome s' ∧
    outcome.skipped = 1 ∧ s.SameStatus stored := by
  obtain ⟨engine, s, _, hreachable, hforeign, hetag, hcounterId, hskipped⟩ :=
    exists_afterCalls_of_finds plainOpening rfl (by decide) (by decide)
      [.store "group" "name" 5, .storeReplicated "group" "name" .nil .positive 100] (by decide)
      (fun _ s => ServerId.nil ≠ s.node.serverId ∧ s.writer.lastEtag = 2 ∧
        s.writer.lastCounterId = 1 ∧
        Returns (Write.applyMessage (deletion .positive)) s fun outcome _ => outcome.skipped = 1)
      (by decide +kernel)
  obtain ⟨action, stored, outcome, s', hstored, happly, _, hiff⟩ := hreachable.skips_iff_unchanged
    (deletion .positive).serverId (e := ⟨"group", "name", .nil, .positive, 100, 7⟩) (by decide)
    hforeign (by rw [hetag]; decide) (by rw [hcounterId]; decide)
  obtain ⟨_, _, hskips, hskipped⟩ := hskipped
  obtain ⟨rfl, rfl⟩ := EStateM.Result.ok.inj (hskips.symm.trans happly)
  exact ⟨s, _, stored, action, _, hstored, happly, hskipped, (hiff.1 hskipped).1⟩

/-- The same entry under the other sign is written, although its write changes nothing. -/
theorem writes_a_tombstone_in_place : ∃ (engine : Engine) (s stored s' : Session)
    (action : ChangeAction) (outcome : Applied), Reachable (writing engine s) ∧
    (Write.storeReplicated "group" "name" .nil .negative 100).run s = .ok action stored ∧
    s.SameStatus stored ∧
    (Write.applyMessage (deletion .negative)).run s = .ok outcome s' ∧
    outcome.applied = 1 ∧ outcome.skipped = 0 := by
  obtain ⟨engine, s, _, hreachable, hwritten⟩ :=
    exists_afterCalls_of_finds plainOpening rfl (by decide) (by decide)
      [.store "group" "name" 5, .storeReplicated "group" "name" .nil .positive 100] (by decide)
      (fun _ s =>
        Returns (Write.storeReplicated "group" "name" .nil .negative 100) s
          (fun _ stored => s.SameStatus stored) ∧
        Returns (Write.applyMessage (deletion .negative)) s
          fun outcome _ => outcome.applied = 1 ∧ outcome.skipped = 0) (by decide +kernel)
  obtain ⟨⟨action, stored, hstored, hsame⟩, outcome, s', happly, happlied, hskipped⟩ := hwritten
  exact ⟨engine, s, stored, s', action, outcome, hreachable, hstored, hsame, happly, happlied,
    hskipped⟩

end Stage

end CounterMesh
