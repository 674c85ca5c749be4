import CounterMesh.Proofs.Store.Runs

/-!
# Local calls and readers of a store

A node writes by calls of a writer that is committed: it stores, resets and
deletes. Its calls write slots of the node itself and tombstones, and only those
of their own counters. Readers find the values of the slots and the feed of the
catalog that was committed.
-/

namespace CounterMesh

/-- Calls of one writer. A call that fails leaves what its steps before did. -/
def Write.calls (calls : List Call) : Write Unit := calls.forM fun call => modify call.finish

/-- The call is a local one. -/
def Call.isLocal (call : Call) : Bool := call.counter?.isSome

/-- The slots that local calls of a node may write. -/
def Call.Touched (own : ServerId) (calls : List Call) (k : SlotName) : Prop :=
  Named k.group k.name ∧ ∃ call ∈ calls, call.Touches own k

/-- A local call writes its own counter only. -/
theorem Call.counter?_of_touches {call : Call} {own : ServerId} {k : SlotName}
    (h : call.Touches own k) : call.counter? = some (k.group, k.name) := by
  cases call with
  | store group name delta =>
      obtain ⟨⟨rfl, rfl⟩, _⟩ := h
      rfl
  | reset group name =>
      obtain ⟨⟨rfl, rfl⟩, _⟩ := h
      rfl
  | delete group name =>
      obtain ⟨⟨rfl, rfl⟩, _⟩ := h
      rfl
  | _ => cases h

/-- A local call writes slots of its own node and tombstones. -/
theorem Call.owner_of_touches {call : Call} {own : ServerId} {k : SlotName}
    (h : call.Touches own k) : k.serverId = own ∨ k.serverId = .nil := by
  cases call with
  | store group name delta => exact .inl h.2
  | reset group name => exact .inl h.2
  | delete group name => exact h.2.imp id fun ht => congrArg SlotName.serverId ht
  | _ => cases h

/-- The call is a local store. -/
def Call.isStore : Call → Bool
  | store .. => true
  | _ => false

/-- A local store writes slots of its own node only. -/
theorem Call.owner_of_isStore {calls : List Call} (hstores : calls.all Call.isStore = true)
    {own : ServerId} {k : SlotName} (h : Call.Touched own calls k) : k.serverId = own := by
  obtain ⟨_, call, hcall, htouches⟩ := h
  have hstore := List.all_eq_true.1 hstores call hcall
  cases call with
  | store group name delta => exact htouches.2
  | _ => cases hstore

theorem Call.isLocal_of_isStore {call : Call} (h : call.isStore = true) : call.isLocal = true := by
  cases call with
  | store group name delta => rfl
  | _ => cases h

theorem Write.returns_calls_cons {call : Call} {rest : List Call} {s : Session}
    {post : Unit → Session → Prop} (h : Returns (Write.calls rest) (call.finish s) post) :
    Returns (Write.calls (call :: rest)) s post := by
  refine (Returns.modify call.finish).bind ?_
  rintro _ _ rfl
  exact h

/-- Local calls of one writer, one after another. -/
theorem Write.returns_calls {calls : List Call} {s : Session} {home : Node} {c c' : Catalog}
    {allowed : SlotName → Prop} {k : Nat} (hlocal : ∀ call ∈ calls, call.isLocal = true)
    (hallowed : ∀ call ∈ calls, ∀ slot, call.Touches home.serverId slot →
      Named slot.group slot.name → allowed slot)
    (hnamed : ∀ slot, allowed slot → Named slot.group slot.name)
    (hs : c.Sound) (hn : c.AllNamed) (hroom : c.HasRoom (k + (calls.map Call.writes).sum))
    (hnode : home.serverId ≠ .nil) (hputs : Catalog.Puts allowed k c c')
    (hshows : s.Shows home c'.ledger) :
    Returns (Write.calls calls) s fun _ s' =>
      s'.Wrote home allowed c (k + (calls.map Call.writes).sum) := by
  induction calls generalizing s c' k with
  | nil => exact .pure ⟨c', hputs, hshows⟩
  | cons call rest ih =>
      rw [List.map_cons, List.sum_cons, ← Nat.add_assoc] at hroom ⊢
      have hevolves : Catalog.Evolves False k c c' := hputs.evolves
      have hs' : c'.Sound := hevolves.sound hs (hroom.mono (by omega))
      have hn' : c'.AllNamed :=
        (hputs.renews hs (hroom.mono (by omega))).allNamed hn fun slot _ => hnamed slot
      have hroom' : c'.HasRoom call.writes := hevolves.hasRoom (hroom.mono (by omega))
      obtain ⟨c'', hputs', hshows'⟩ := call.finish_of_leaves
        (call.leaves_local hshows hs' hroom' hnode (hlocal call List.mem_cons_self)
          fun slot htouches hor => hallowed call List.mem_cons_self slot htouches
            (hor.elim id (hn'.live hs')))
      refine Write.returns_calls_cons (ih ?_ ?_ hroom (hputs.trans hputs') hshows')
      · exact fun call' h => hlocal call' (.tail _ h)
      · exact fun call' h => hallowed call' (.tail _ h)

namespace Store

/-- The store that an operation leaves, whether it answers or fails. -/
def after {α : Type} (store : Store) (operation : StoreM α) : Store := leaving operation store

/-- The store after a writer has run these calls and is committed. -/
def write (store : Store) (calls : List Call) (notify : Bool) : Store :=
  store.after (StoreM.transact notify (Write.calls calls))

/-- Both sequences of the store have room for so many numbers. -/
def HasRoom (store : Store) (count : Nat) : Prop :=
  store.node.lastEtag.toNat + count < UInt64.size ∧
    store.node.lastCounterId.toNat + count < UInt64.size

instance (store : Store) (count : Nat) : Decidable (store.HasRoom count) :=
  inferInstanceAs (Decidable (_ ∧ _))

variable {store : Store} {serverId : ServerId} {c : Catalog}

theorem after_of_returns {α : Type} {operation : StoreM α} {post : α → Store → Prop}
    (h : Returns operation store post) : ∃ a, post a (store.after operation) := h.leaving

theorem Holds.hasRoom_iff (h : store.Holds serverId c) {count : Nat} :
    store.HasRoom count ↔ c.HasRoom count := by
  rw [HasRoom, Catalog.HasRoom, h.keeps.lastEtag, h.keeps.lastCounterId]

/-- A writer with local calls is committed, and has written the slots of its calls. -/
theorem Holds.write (h : store.Holds serverId c) (hn : c.AllNamed) {calls : List Call}
    (hlocal : ∀ call ∈ calls, call.isLocal = true)
    (hroom : c.HasRoom (calls.map Call.writes).sum) (notify : Bool) :
    ∃ c', (store.write calls notify).Holds serverId c' ∧
      Catalog.Puts (Call.Touched serverId calls) (calls.map Call.writes).sum c c' := by
  obtain rfl := h.serverId_eq
  have hroom' : c.HasRoom (0 + (calls.map Call.writes).sum) := by rwa [Nat.zero_add]
  have hallowed : ∀ call ∈ calls, ∀ slot, call.Touches store.node.serverId slot →
      Named slot.group slot.name → Call.Touched store.node.serverId calls slot :=
    fun call hcall slot htouches hnamed => ⟨hnamed, call, hcall, htouches⟩
  have hreturns := StoreM.returns_transact (Write.calls calls)
    (fun _ c' => Catalog.Puts (Call.Touched store.node.serverId calls)
      (calls.map Call.writes).sum c c') h notify fun s hshows => by
      refine (Write.returns_calls hlocal hallowed (fun _ => And.left) h.keeps.sound hn hroom'
        h.keeps.serverId (.refl 0 c) hshows).mono ?_
      rintro _ s' ⟨c', hputs, hshows'⟩
      rw [Nat.zero_add] at hputs
      have hevolves : Catalog.Evolves False _ c c' := hputs.evolves
      exact ⟨c', hputs, hevolves.sound h.keeps.sound hroom, hevolves.records h.keeps.records,
        hshows'⟩
  obtain ⟨_, c', hputs, hholds⟩ := after_of_returns hreturns
  exact ⟨c', hholds, hputs⟩

/-- What a reader finds in a slot. -/
def valueOf? (store : Store) (k : SlotName) : Except Error (Option Int64) :=
  Index.valueOf? store.engine.snapshot k.group k.name (.ofServer k.serverId) k.sign

/-- All entries of the feed, as a reader is told them. -/
def feed (store : Store) : List FeedEntry :=
  let count := (store.engine.snapshot.entryCount Layout.etagToKey).toOption.getD 0
  (Index.changes store.engine.snapshot 0 count).toOption.getD []

theorem Holds.valueOf?_eq (h : store.Holds serverId c) (k : SlotName) :
    store.valueOf? k = .ok ((c.slot k).map Cell.value) := by
  have hshows : store.engine.snapshot.trees.Shows c.ledger := h.keeps.shows
  have hvalue := Catalog.index_valueOf? hshows k.group k.name (.ofServer k.serverId) k.sign
  rw [Owner.server_ofServer] at hvalue
  exact hvalue

theorem Holds.feed (h : store.Holds serverId c) : c.Feed store.feed := by
  have hshows : store.engine.snapshot.trees.Shows c.ledger := h.keeps.shows
  obtain ⟨feed, hfeed, hcount, _⟩ := Catalog.exists_feed hshows h.keeps.sound
  have hchanges := hfeed.changes_length hshows h.keeps.sound 0
  rw [hfeed.after_zero h.keeps.sound] at hchanges
  have heq : store.feed = feed := by
    simp only [Store.feed, hcount, Except.toOption, Option.getD_some, hchanges]
  exact heq ▸ hfeed

end Store

end CounterMesh
