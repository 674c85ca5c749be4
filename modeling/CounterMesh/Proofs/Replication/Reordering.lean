import CounterMesh.Proofs.Replication.Copy
import CounterMesh.Proofs.Replication.Redelivery

/-!
# Entries in another order

Two entries about different slots of nodes set the value of a slot to the same,
whichever of them comes first: each sets the slot that it is about, and both
empty the tombstones of their counters, which neither of them fills. Entries
about different slots can therefore be put in any order and be cut into any
messages, and the messages can be spread over any writers. The values of the
slots decide which counters there are. The ids of the counters do not enter into
them, so that it does not matter which counter is named first.
-/

namespace CounterMesh

/-- Entries about slots of nodes, each about another slot, and all about counters with names. -/
structure FeedEntry.Independent (entries : List FeedEntry) : Prop where
  node : ∀ e ∈ entries, e.serverId ≠ .nil
  named : ∀ e ∈ entries, Named e.group e.name
  apart : (entries.map FeedEntry.slotName).Nodup

namespace FeedEntry

variable {own : ServerId} {entries entries' : List FeedEntry} {e e' : FeedEntry}

theorem target_of_node (h : e.serverId ≠ .nil) : e.target = e.slotName := by
  rw [target, slotName, Sign.under_node e.sign h]

theorem slotName_ne_tombstone (h : e.serverId ≠ .nil) (group name : String) :
    e.slotName ≠ .tombstone group name :=
  fun heq => h (congrArg SlotName.serverId heq)

/-- Entries about different slots of nodes can be swapped. -/
theorem sets_swap (own : ServerId) (k : SlotName) (h : e.serverId ≠ .nil) (h' : e'.serverId ≠ .nil)
    (hne : e.slotName ≠ e'.slotName) (value : Option Int64) :
    sets own k (sets own k value e) e' = sets own k (sets own k value e') e := by
  have htarget : ∀ value, sets own k value e = if e.serverId = own then value
      else if k = e.slotName then some e.value
      else if k = .tombstone e.group e.name then none else value := by
    intro value
    rw [sets, target_of_node h]
  have htarget' : ∀ value, sets own k value e' = if e'.serverId = own then value
      else if k = e'.slotName then some e'.value
      else if k = .tombstone e'.group e'.name then none else value := by
    intro value
    rw [sets, target_of_node h']
  simp only [htarget, htarget']
  by_cases hk : k = e.slotName
  · have hother : k ≠ e'.slotName := fun heq => hne (hk.symm.trans heq)
    have htombstone : k ≠ .tombstone e'.group e'.name := hk ▸ slotName_ne_tombstone h _ _
    simp only [if_pos hk, if_neg hother, if_neg htombstone, ite_self]
  · by_cases hk' : k = e'.slotName
    · have htombstone : k ≠ .tombstone e.group e.name := hk' ▸ slotName_ne_tombstone h' _ _
      simp only [if_neg hk, if_pos hk', if_neg htombstone, ite_self]
    · -- What is left of both is to empty tombstones.
      simp only [if_neg hk, if_neg hk']
      split_ifs <;> rfl

/-- In any order independent entries make the same of a value. -/
theorem setsAll_perm (h : Independent entries) (hperm : entries'.Perm entries) (own : ServerId)
    (k : SlotName) (value : Option Int64) :
    setsAll own k entries' value = setsAll own k entries value := by
  refine (hperm.symm.foldl_eq' (fun e he e' he' value => ?_) value).symm
  by_cases heq : e = e'
  · rw [heq]
  · have hne : e.slotName ≠ e'.slotName := fun hslot =>
      heq (List.inj_on_of_nodup_map h.apart he he' hslot)
    exact sets_swap own k (h.node e he) (h.node e' he') hne value

theorem Independent.perm (h : Independent entries) (hperm : entries'.Perm entries) :
    Independent entries' where
  node := fun e he => h.node e (hperm.subset he)
  named := fun e he => h.named e (hperm.subset he)
  apart := (hperm.map slotName).nodup_iff.2 h.apart

end FeedEntry

/-- Applies messages one after another. -/
def Write.applyMessages (messages : List Message) : Write Unit :=
  messages.forM fun message => discard (applyMessage message)

/-- Applies messages turn by turn. The messages of a turn are applied by one writer, which commits
before the next turn. -/
def StoreM.applyTurns (notify : Bool) (turns : List (List Message)) : StoreM Unit :=
  turns.forM fun messages => transact notify (Write.applyMessages messages)

namespace Catalog

variable {c : Catalog} {own : ServerId} {goal : SlotName → Option Int64}

/-- A catalog that entries lead to these values of all slots. -/
structure LeadsTo (c : Catalog) (own : ServerId) (entries : List FeedEntry)
    (goal : SlotName → Option Int64) : Prop where
  sound : c.Sound
  records : c.Records own
  named : ∀ e ∈ entries, Named e.group e.name
  room : c.HasRoom entries.length
  values : ∀ k, FeedEntry.setsAll own k entries ((c.slot k).map Cell.value) = goal k

/-- After a message the entries behind it lead to the same values. -/
theorem LeadsTo.apply {message : Message} {rest : List FeedEntry}
    (h : c.LeadsTo own (message.entries ++ rest) goal) :
    (c.apply own message).LeadsTo own rest goal := by
  have hevolves : Evolves False message.entries.length c (c.apply own message) := by
    simpa using evolves_apply (.refl 0 c) message
  have hroom := h.room
  rw [List.length_append] at hroom
  have hfront := hroom.mono (Nat.le_add_right _ rest.length)
  refine ⟨hevolves.sound h.sound hfront, hevolves.records h.records,
    fun e he => h.named e (List.mem_append_right _ he), hevolves.hasRoom hroom, fun k => ?_⟩
  have hgoal := h.values k
  rw [FeedEntry.setsAll, List.foldl_append] at hgoal
  rw [slot_apply, value_absorb own h.sound hfront]
  exact hgoal

end Catalog

theorem Write.returns_applyMessages {s : Session} {home : Node} {c : Catalog}
    {goal : SlotName → Option Int64} (messages : List Message) (rest : List FeedEntry)
    (h : s.Shows home c.ledger)
    (hleads : c.LeadsTo home.serverId (messages.flatMap Message.entries ++ rest) goal) :
    Returns (applyMessages messages) s fun _ s' =>
      ∃ c' : Catalog, c'.LeadsTo home.serverId rest goal ∧ s'.Shows home c'.ledger := by
  refine Returns.forM (fun messages s => ∃ c : Catalog,
    c.LeadsTo home.serverId (messages.flatMap Message.entries ++ rest) goal ∧
      s.Shows home c.ledger) ?_ messages s ⟨c, hleads, h⟩
  rintro message messages s ⟨c, hleads, h⟩
  rw [List.flatMap_cons, List.append_assoc] at hleads
  have hroom := hleads.room.mono ((List.length_append ..).symm ▸ Nat.le_add_right _ _)
  refine (returns_applyMessage message h hleads.sound
    (fun e he => hleads.named e (List.mem_append_left _ he)) hroom).bind ?_
  rintro _ s' ⟨_, h'⟩
  exact .pure ⟨_, hleads.apply, h'⟩

theorem StoreM.returns_applyTurns {store : Store} {own : ServerId} {c : Catalog}
    {goal : SlotName → Option Int64} (notify : Bool) (turns : List (List Message))
    (h : store.Holds own c)
    (hleads : c.LeadsTo own (turns.flatten.flatMap Message.entries) goal) :
    Returns (applyTurns notify turns) store fun _ store' =>
      ∃ c' : Catalog, c'.LeadsTo own [] goal ∧ store'.Holds own c' := by
  refine Returns.forM (fun turns store => ∃ c : Catalog,
    c.LeadsTo own (turns.flatten.flatMap Message.entries) goal ∧ store.Holds own c) ?_ turns store
    ⟨c, hleads, h⟩
  rintro messages turns store ⟨c, hleads, h⟩
  rw [List.flatten_cons, List.flatMap_append, ← h.serverId_eq] at hleads
  refine Returns.mono (returns_transact (Write.applyMessages messages) (fun _ c' =>
    c'.LeadsTo own (turns.flatten.flatMap Message.entries) goal) h notify fun s hshows => ?_) ?_
  · refine (Write.returns_applyMessages messages _ hshows hleads).mono ?_
    rintro _ s' ⟨c', hleads', hshows'⟩
    rw [h.serverId_eq] at hleads'
    exact ⟨c', hleads', hleads'.sound, hleads'.records, hshows'⟩
  · rintro _ store' ⟨c', hleads', h'⟩
    exact ⟨c', hleads', h'⟩

namespace Stage

/-- Independent entries commute. From every store of a run two plans that both apply these entries,
in any orders, cut into any messages and the messages spread over any writers, succeed and lead to
stores of which readers are told the same about every counter. -/
theorem Reachable.independent_entries_commute {store : Store} (h : Reachable (idle store))
    {entries : List FeedEntry} (hentries : FeedEntry.Independent entries)
    (hetag : store.node.lastEtag.toNat + entries.length < UInt64.size)
    (hcounterId : store.node.lastCounterId.toNat + entries.length < UInt64.size)
    {turns turns' : List (List Message)}
    (hturns : (turns.flatten.flatMap Message.entries).Perm entries)
    (hturns' : (turns'.flatten.flatMap Message.entries).Perm entries) (notify notify' : Bool) :
    ∃ store₁ store₂, (StoreM.applyTurns notify turns).run store = .ok () store₁ ∧
      (StoreM.applyTurns notify' turns').run store = .ok () store₂ ∧
      store₁.engine.snapshot.SameCounters store₂.engine.snapshot := by
  obtain ⟨c, _, hpresents⟩ := h.presents
  obtain ⟨hunlocked, hvalid⟩ := h.ready
  have hholds : store.Holds store.node.serverId c := ⟨hpresents.keeps, hunlocked, rfl, hvalid⟩
  rw [hholds.keeps.lastEtag] at hetag
  rw [hholds.keeps.lastCounterId] at hcounterId
  generalize store.node.serverId = own at hholds
  -- Both plans lead to what the entries make of the values in the order of the list.
  have hplan : ∀ (notify : Bool) (turns : List (List Message)),
      (turns.flatten.flatMap Message.entries).Perm entries →
      ∃ store' c', (StoreM.applyTurns notify turns).run store = .ok () store' ∧
        store'.Holds own c' ∧ ∀ k, (c'.slot k).map Cell.value =
          FeedEntry.setsAll own k entries ((c.slot k).map Cell.value) := by
    intro notify turns hturns
    have hleads : c.LeadsTo own (turns.flatten.flatMap Message.entries) fun k =>
        FeedEntry.setsAll own k entries ((c.slot k).map Cell.value) :=
      { sound := hholds.keeps.sound
        records := hholds.records
        named := (hentries.perm hturns).named
        room := hturns.length_eq.symm ▸ ⟨hetag, hcounterId⟩
        values := fun k => FeedEntry.setsAll_perm hentries hturns own k _ }
    obtain ⟨_, store', hrun, c', hleads', hholds'⟩ :=
      StoreM.returns_applyTurns notify turns hholds hleads
    exact ⟨store', c', hrun, hholds', hleads'.values⟩
  obtain ⟨store₁, c₁, hrun₁, hholds₁, hvalues₁⟩ := hplan notify turns hturns
  obtain ⟨store₂, c₂, hrun₂, hholds₂, hvalues₂⟩ := hplan notify' turns' hturns'
  have hsame : c₁.SameValues c₂ := fun k => (hvalues₁ k).trans (hvalues₂ k).symm
  exact ⟨store₁, store₂, hrun₁, hrun₂, hsame.sameCounters hholds₁.keeps.shows hholds₂.keeps.shows
    hholds₁.keeps.sound hholds₂.keeps.sound⟩

/-- Two plans for the same entries: one about a slot of the receiver, two about a counter that the
receiver has deleted, and two about counters that it has never heard of. -/
def scattered : List (List Message) × List (List Message) :=
  let own : FeedEntry := ⟨"group", "other", plainOpening.fresh, .positive, 9, 1⟩
  let revived : FeedEntry := ⟨"group", "name", .ofByte 8, .positive, 4, 2⟩
  let again : FeedEntry := ⟨"group", "name", .ofByte 9, .negative, 1, 3⟩
  let late : FeedEntry := ⟨"group", "late", .ofByte 8, .positive, 6, 4⟩
  let later : FeedEntry := ⟨"group", "later", .ofByte 8, .positive, 7, 5⟩
  ([[⟨.ofByte 8, [own, revived]⟩, ⟨.ofByte 9, [again]⟩], [⟨.ofByte 8, [late, later]⟩]],
    [[⟨.ofByte 9, [later, late, again, revived, own]⟩]])

/-- The plans name the two new counters in different orders, and so under different ids. -/
theorem independent_entries_commute_of_scattered : ∃ store store₁ store₂,
    (StoreM.applyTurns true scattered.1).run store = .ok () store₁ ∧
      (StoreM.applyTurns false scattered.2).run store = .ok () store₂ ∧
      store₁.engine.snapshot.SameCounters store₂.engine.snapshot ∧
      Index.liveId? store₁.engine.snapshot "group" "late" = .ok (some 3) ∧
      Index.liveId? store₂.engine.snapshot "group" "late" = .ok (some 4) := by
  obtain ⟨engine, s, _, hreachable, hetag, hcounterId, hfirst, hsecond⟩ :=
    exists_afterCalls_of_finds plainOpening rfl (by decide) (by decide)
      [.store "group" "name" 5, .delete "group" "name", .store "group" "other" 2] (by decide)
      (fun engine s =>
        let committed := s.node.commit engine s.writer true
        committed.1.lastEtag.toNat < 9 ∧ committed.1.lastCounterId.toNat < 9 ∧
        Returns (StoreM.applyTurns true scattered.1) ⟨committed.1, committed.2⟩ (fun _ store₁ =>
          Index.liveId? store₁.engine.snapshot "group" "late" = .ok (some 3)) ∧
        Returns (StoreM.applyTurns false scattered.2) ⟨committed.1, committed.2⟩ (fun _ store₂ =>
          Index.liveId? store₂.engine.snapshot "group" "late" = .ok (some 4)))
      (by decide +kernel)
  have hentries : FeedEntry.Independent (scattered.1.flatten.flatMap Message.entries) :=
    ⟨by decide, by decide, by decide⟩
  have hperm : (scattered.2.flatten.flatMap Message.entries).Perm
      (scattered.1.flatten.flatMap Message.entries) := by decide
  obtain ⟨store₁, store₂, hrun₁, hrun₂, hsame⟩ :=
    (hreachable.step (.commit true)).independent_entries_commute hentries
      ((Nat.add_lt_add_right hetag 5).trans (by decide))
      ((Nat.add_lt_add_right hcounterId 5).trans (by decide)) (.refl _) hperm true false
  obtain ⟨_, _, hrun, hid₁⟩ := hfirst
  obtain ⟨_, rfl⟩ := EStateM.Result.ok.inj (hrun.symm.trans hrun₁)
  obtain ⟨_, _, hrun', hid₂⟩ := hsecond
  obtain ⟨_, rfl⟩ := EStateM.Result.ok.inj (hrun'.symm.trans hrun₂)
  exact ⟨_, _, _, hrun₁, hrun₂, hsame, hid₁, hid₂⟩

end Stage

end CounterMesh
