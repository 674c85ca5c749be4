import CounterMesh.Proofs.Replication.Apply
import CounterMesh.Proofs.Store.Commit
import CounterMesh.Proofs.Store.Opening
import CounterMesh.Proofs.Store.Purge
import Mathlib.Algebra.GroupWithZero.Nat

/-!
# Runs of a store

A store starts on an engine without trees. From then on writers are opened, run
calls one after another, and are committed or dropped, and the store may be
opened again on what it has committed. A call that fails leaves what its steps
before did; the writer stays open. Between any two steps the clock and the
signal of the node may change.

Every state of a run presents a sound catalog: the writer one of its own while
it is open, and the engine the one that was committed last.
-/

namespace CounterMesh

/-- The calls of a writer. -/
inductive Call where
  | store (group name : String) (delta : Int64)
  | storeReplicated (group name : String) (serverId : ServerId) (sign : Sign) (value : Int64)
  | reset (group name : String)
  | delete (group name : String)
  | purge
  | apply (message : Message)
  | recordPeerEtag (serverId : ServerId) (etag : Etag)
  | updateReplication (document : ReplicationDocument)

namespace Call

/-- The operation of a call, whose answer does not matter here. -/
def operation : Call → Write Unit
  | store group name delta => discard (Write.store group name delta)
  | storeReplicated group name serverId sign value =>
    discard (Write.storeReplicated group name serverId sign value)
  | reset group name => discard (Write.reset group name)
  | delete group name => Write.delete group name
  | purge => discard Write.purgeBatch
  | apply message => discard (Write.applyMessage message)
  | recordPeerEtag serverId etag => Write.recordPeerEtag serverId etag
  | updateReplication document => Write.updateReplication document

/-- The session that a call leaves, whether it answers or fails. -/
def finish (call : Call) (s : Session) : Session := leaving call.operation s

/-- How many numbers of each sequence a call may take. -/
def writes : Call → Nat
  | store .. => 1
  | storeReplicated .. => 1
  | reset .. => 1
  | delete .. => 3
  | purge => 0
  | apply message => message.entries.length
  | recordPeerEtag .. => 0
  | updateReplication .. => 0

/-- The counter of a local call. -/
def counter? : Call → Option (String × String)
  | store group name _ => some (group, name)
  | reset group name => some (group, name)
  | delete group name => some (group, name)
  | _ => none

/-- The slots that a local call of a node may write: those of the node itself and, if the call is a
deletion, the tombstone. -/
def Touches (own : ServerId) : Call → SlotName → Prop
  | store group name _, k => k.Of group name ∧ k.serverId = own
  | reset group name, k => k.Of group name ∧ k.serverId = own
  | delete group name, k => k.Of group name ∧ (k.serverId = own ∨ k = .tombstone group name)
  | _, _ => False

end Call

/-- A store, and the session of its writer while one is open. -/
inductive Stage where
  | idle (store : Store)
  | writing (engine : Engine) (session : Session)

/-- What happens to a store. -/
inductive Event where
  | openWriter
  | call (call : Call)
  | commit (notify : Bool)
  | drop
  | reopen (opening : Opening)
  /-- The clock and the signal are moved from outside. -/
  | outside (clock : Clock) (signal : Signal)

namespace Stage

/-- One event in the life of a store. The sequences are words: a call takes place while both have
room for its writes, so that no number is taken twice. -/
inductive Step : Stage → Event → Stage → Prop where
  | openWriter {store : Store} {writer : Writer} {engine : Engine}
      (h : store.node.openWriter store.engine = .ok (writer, engine)) :
      Step (idle store) .openWriter (writing engine ⟨store.node, writer⟩)
  | call {engine : Engine} {s : Session} (call : Call)
      (hetag : s.writer.lastEtag.toNat + call.writes < UInt64.size)
      (hcounterId : s.writer.lastCounterId.toNat + call.writes < UInt64.size) :
      Step (writing engine s) (.call call) (writing engine (call.finish s))
  | commit {engine : Engine} {s : Session} (notify : Bool) :
      Step (writing engine s) (.commit notify)
        (idle ⟨(s.node.commit engine s.writer notify).1, (s.node.commit engine s.writer notify).2⟩)
  | drop {engine : Engine} {s : Session} :
      Step (writing engine s) .drop (idle ⟨s.node, engine.drop s.writer.transaction⟩)
  | reopen {store store' : Store} {opening : Opening}
      (h : opening.start (.ofDatabase store.engine.committed) = .ok store') :
      Step (idle store) (.reopen opening) (idle store')
  | outside {store : Store} (clock : Clock) (signal : Signal) :
      Step (idle store) (.outside clock signal)
        (idle { store with node := { store.node with clock, signal } })
  | outsideWriting {engine : Engine} {s : Session} (clock : Clock) (signal : Signal) :
      Step (writing engine s) (.outside clock signal)
        (writing engine { s with node := { s.node with clock, signal } })

/-- The states of a store that was opened on no trees. -/
inductive Reachable : Stage → Prop where
  | start {opening : Opening} {store : Store} (h : opening.start .empty = .ok store)
      (hfresh : opening.fresh ≠ .nil) : Reachable (idle store)
  | step {stage stage' : Stage} {event : Event} (h : Reachable stage)
      (hstep : Step stage event stage') : Reachable stage'

end Stage

namespace Call

variable {s : Session} {home : Node} {c : Catalog}

theorem finish_of_discard {α : Type} {call : Call} {op : Write α} (s : Session)
    (h : call.operation = discard op) : call.finish s = leaving op s := by
  rw [finish, h, leaving_discard]

theorem finish_of_leaves (call : Call) {post : Session → Prop}
    (h : Leaves call.operation s post) : post (call.finish s) := h.leaving

theorem leaves_discard {α : Type} {op : Write α} {post : Session → Prop}
    (h : Leaves op s post) : Leaves (discard op) s post :=
  h.bind (fun _ => id) fun _ _ h' => .pure h'

/-- What a message leaves is what its call leaves. -/
theorem finish_apply_eq {message : Message} {s' : Session}
    (h : Leaves (Write.applyMessage message) s fun s'' => s'' = s') :
    (apply message).finish s = s' := by
  have hcall : Leaves (apply message).operation s fun s'' => s'' = s' := leaves_discard h
  exact finish_of_leaves _ hcall

/-- The slots that a local call writes are of counters that have a name or are live already. -/
theorem leaves_local (call : Call) (h : s.Shows home c.ledger) (hs : c.Sound)
    (hroom : c.HasRoom call.writes) (hnode : home.serverId ≠ .nil)
    (hlocal : call.counter?.isSome = true) {allowed : SlotName → Prop}
    (hallowed : ∀ k, call.Touches home.serverId k →
      Named k.group k.name ∨ c.Live k.group k.name → allowed k) :
    Leaves call.operation s fun s' => s'.Wrote home allowed c call.writes := by
  cases call with
  | store group name delta =>
      have hwrote : s.Wrote home allowed c 0 := ⟨c, .refl 0 c, h⟩
      exact leaves_discard (Write.leaves_store hwrote hs (by rwa [Nat.zero_add]) hnode group name
        (fun hnamed _ => hallowed _ ⟨⟨rfl, rfl⟩, rfl⟩ (.inl hnamed)) delta)
  | reset group name =>
      exact leaves_discard (Write.leaves_reset h hs hroom hnode group name
        fun hnamed _ => hallowed _ ⟨⟨rfl, rfl⟩, rfl⟩ (.inl hnamed))
  | delete group name =>
      exact Write.leaves_delete h hs hroom hnode group name
        (fun hnamed _ => hallowed _ ⟨⟨rfl, rfl⟩, .inl rfl⟩ (.inl hnamed))
        fun hlive => hallowed _ ⟨SlotName.of_tombstone .., .inr rfl⟩ (.inr hlive)
  | _ => cases hlocal

/-- A call evolves the catalog of its writer by as many writes as it may take numbers, and removes
counters only when it purges. -/
theorem leaves_operation (call : Call) (h : s.Shows home c.ledger) (hs : c.Sound)
    (hroom : c.HasRoom call.writes) (hnode : home.serverId ≠ .nil) :
    Leaves call.operation s fun s' => s'.Reached home (call = purge) c call.writes := by
  have hreached : ∀ purge, s.Reached home purge c 0 := fun purge => ⟨c, .refl 0 c, id, h⟩
  have hroom' : c.HasRoom (0 + call.writes) := by rwa [Nat.zero_add]
  -- A counter without a name is not written by a local call unless it is live already.
  have hnamed : ∀ k, call.Touches home.serverId k →
      Named k.group k.name ∨ c.Live k.group k.name → c.AllNamed → Named k.group k.name :=
    fun k _ hor hn => hor.elim id fun hlive => hn.live hs hlive
  rw [← Nat.zero_add call.writes]
  cases call with
  | storeReplicated group name serverId sign value =>
      exact leaves_discard
        (Write.leaves_storeReplicated (hreached _) hs hroom' group name serverId sign value)
  | purge =>
      refine leaves_discard ?_
      refine (Write.reached_purgeBatch (hreached _) hs hroom').leaves fun _ s' h' => ?_
      obtain ⟨c', hevolves, hn, hshows⟩ := h'
      exact ⟨c', hevolves.imp fun _ => rfl, hn, hshows⟩
  | apply message => exact leaves_discard (Write.leaves_applyMessage message (hreached _) hs hroom')
  | recordPeerEtag serverId etag => exact Write.leaves_recordPeerEtag (hreached _) serverId etag
  | updateReplication document => exact Write.leaves_updateReplication (hreached _) document
  | _ =>
      rw [Nat.zero_add]
      exact (leaves_local _ h hs hroom hnode rfl hnamed).mono
        fun _ h' => h'.reached hs hroom (fun hn k hk => hk hn) _

end Call

namespace Event

/-- How many numbers of each sequence an event may take. -/
def writes : Event → Nat
  | .call c => c.writes
  | _ => 0

end Event

namespace Stage

/-- The catalog that the trees of a stage present; behind an open writer stands the catalog that
was committed last. -/
def Holds : Stage → Catalog → Prop
  | idle store, c => store.node.Keeps store.engine.committed c
  | writing engine s, c => c.Sound ∧ c.Records s.node.serverId ∧
      ∃ home c₀, Node.Keeps home engine.committed c₀ ∧ s.Shows home c.ledger

/-- The catalog that was committed last, and the one that the trees of a stage present. -/
def Carries : Stage → (base cur : Catalog) → Prop
  | idle store, base, cur => cur = base ∧ store.node.Keeps store.engine.committed base
  | writing engine s, base, cur => cur.Sound ∧ cur.Records s.node.serverId ∧
      ∃ home, Node.Keeps home engine.committed base ∧ s.Shows home cur.ledger

/-- What an event does to these two catalogs. -/
inductive Moves : Event → (base cur base' cur' : Catalog) → Prop where
  | openWriter {base cur : Catalog} : Moves .openWriter base cur base cur
  | call {base cur cur' : Catalog} (call : Call) (hroom : cur.HasRoom call.writes)
      (hevolves : Catalog.Evolves (call = .purge) call.writes cur cur')
      (hnamed : cur.AllNamed → cur'.AllNamed) : Moves (.call call) base cur base cur'
  | commit {base cur : Catalog} (notify : Bool) : Moves (.commit notify) base cur cur cur
  | drop {base cur : Catalog} : Moves .drop base cur base base
  | reopen {base cur : Catalog} (opening : Opening) : Moves (.reopen opening) base cur base cur
  | outside {base cur : Catalog} (clock : Clock) (signal : Signal) :
      Moves (.outside clock signal) base cur base cur

theorem holds_iff_carries {stage : Stage} {c : Catalog} :
    stage.Holds c ↔ ∃ base, stage.Carries base c := by
  cases stage with
  | idle store =>
      constructor
      · exact fun h => ⟨c, rfl, h⟩
      · rintro ⟨_, rfl, h⟩
        exact h
  | writing engine s =>
      constructor
      · rintro ⟨hs, hr, home, c₀, hcommitted, hshows⟩
        exact ⟨c₀, hs, hr, home, hcommitted, hshows⟩
      · rintro ⟨base, hs, hr, home, hcommitted, hshows⟩
        exact ⟨hs, hr, home, base, hcommitted, hshows⟩

/-- One event moves the catalogs of a stage. -/
theorem Step.carries {stage stage' : Stage} {event : Event} (hstep : Step stage event stage')
    {base cur : Catalog} (h : stage.Carries base cur) :
    ∃ base' cur', stage'.Carries base' cur' ∧ Moves event base cur base' cur' := by
  cases hstep with
  | @openWriter store writer engine hopen =>
      obtain ⟨rfl, hkeeps⟩ := h
      obtain ⟨rfl, rfl⟩ := Node.eq_of_openWriter hopen
      exact ⟨cur, cur, ⟨hkeeps.sound, hkeeps.records, store.node, hkeeps,
        hkeeps.shows_firstWriter⟩, .openWriter⟩
  | @call engine s call hetag hcounterId =>
      obtain ⟨hs, hr, home, hcommitted, hshows⟩ := h
      rw [hshows.lastEtag] at hetag
      rw [hshows.lastCounterId] at hcounterId
      have hroom : cur.HasRoom call.writes := ⟨hetag, hcounterId⟩
      obtain ⟨cur', hevolves, hnamed, hshows'⟩ := call.finish_of_leaves
        (call.leaves_operation hshows hs hroom hcommitted.serverId)
      refine ⟨base, cur', ⟨hevolves.sound hs hroom, ?_, home, hcommitted, hshows'⟩,
        .call call hroom hevolves hnamed⟩
      rw [hshows'.serverId_eq, ← hshows.serverId_eq]
      exact hevolves.records hr
  | @commit engine s notify =>
      obtain ⟨hs, hr, home, hcommitted, hshows⟩ := h
      exact ⟨cur, cur, ⟨rfl, (hshows.commit hs hr hcommitted.serverId engine notify).1⟩,
        .commit notify⟩
  | @drop engine s =>
      obtain ⟨hs, hr, home, hcommitted, hshows⟩ := h
      exact ⟨base, base, ⟨rfl, (hshows.drop engine hcommitted).1⟩, .drop⟩
  | @reopen store store' opening hstart =>
      obtain ⟨rfl, hkeeps⟩ := h
      have hagain := Opening.start_again hkeeps.shows hkeeps.sound hkeeps.records
        hkeeps.serverId hstart
      exact ⟨cur, cur, ⟨rfl, hagain.keeps⟩, .reopen opening⟩
  | outside clock signal =>
      obtain ⟨rfl, hkeeps⟩ := h
      exact ⟨cur, cur, ⟨rfl, hkeeps.outside clock signal⟩, .outside clock signal⟩
  | outsideWriting clock signal =>
      obtain ⟨hs, hr, home, hcommitted, hshows⟩ := h
      exact ⟨base, cur, ⟨hs, hr, home, hcommitted, (hshows.withClock clock).withSignal signal⟩,
        .outside clock signal⟩

/-- Every event but the drop of a writer evolves the catalog. -/
theorem Step.holds {stage stage' : Stage} {event : Event} (hstep : Step stage event stage')
    {c : Catalog} (h : stage.Holds c) :
    ∃ c', stage'.Holds c' ∧ (event ≠ .drop →
      Catalog.Evolves (event = .call .purge) event.writes c c') := by
  obtain ⟨base, hcarries⟩ := holds_iff_carries.1 h
  obtain ⟨base', c', hcarries', hmoves⟩ := hstep.carries hcarries
  refine ⟨c', holds_iff_carries.2 ⟨base', hcarries'⟩, fun hne => ?_⟩
  cases hmoves with
  | call call hroom hevolves hnamed =>
      refine hevolves.imp ?_
      rintro rfl
      rfl
  | drop => exact absurd rfl hne
  | _ => exact .refl _ _

/-- Every state of a run presents a sound catalog. -/
theorem Reachable.holds {stage : Stage} (h : Reachable stage) : ∃ c, stage.Holds c := by
  induction h with
  | start h hfresh => exact ⟨_, (Opening.start_empty h hfresh).keeps⟩
  | step h hstep ih =>
      obtain ⟨c, hc⟩ := ih
      obtain ⟨c', hc', _⟩ := hstep.holds hc
      exact ⟨c', hc'⟩

/-- The trees of a stage, each with the etag that was assigned last on them: those of an open
writer, and those that were committed last. -/
inductive Has : Stage → Database → Etag → Prop where
  | committed {store : Store} : Has (idle store) store.engine.committed store.node.lastEtag
  | writer {engine : Engine} {s : Session} :
      Has (writing engine s) s.writer.transaction.trees s.writer.lastEtag
  | behind {engine : Engine} {s : Session} :
      Has (writing engine s) engine.committed s.node.lastEtag

theorem Holds.has {stage : Stage} {c : Catalog} (h : stage.Holds c) {db : Database}
    {lastEtag : Etag} (hhas : stage.Has db lastEtag) :
    ∃ c' : Catalog, c'.Sound ∧ db.Shows c'.ledger ∧ lastEtag = c'.lastEtag := by
  cases hhas with
  | committed =>
      have hkeeps : Node.Keeps _ _ c := h
      exact ⟨c, hkeeps.sound, hkeeps.shows, hkeeps.lastEtag⟩
  | writer =>
      obtain ⟨hs, _, home, c₀, _, hshows⟩ := h
      exact ⟨c, hs, hshows.trees, hshows.lastEtag⟩
  | behind =>
      obtain ⟨_, _, home, c₀, hkeeps, hshows⟩ := h
      refine ⟨c₀, hkeeps.sound, hkeeps.shows, ?_⟩
      rw [hshows.node]
      exact hkeeps.lastEtag

/-- The trees that the next call of a stage works on. -/
def transaction : Stage → Transaction
  | idle store => store.engine.snapshot
  | writing _ s => s.writer.transaction

theorem Holds.transaction_shows {stage : Stage} {c : Catalog} (h : stage.Holds c) :
    stage.transaction.trees.Shows c.ledger := by
  cases stage with
  | idle store =>
      have hkeeps : Node.Keeps _ _ c := h
      exact hkeeps.shows
  | writing engine s =>
      obtain ⟨_, _, home, c₀, _, hshows⟩ := h
      exact hshows.trees

/-- A call takes place while both sequences have room for its writes, and leaves the rest of the
room. -/
theorem Holds.call {engine : Engine} {s : Session} {c : Catalog} {call : Call} {count : Nat}
    (h : (writing engine s).Holds c) (hroom : c.HasRoom (call.writes + count)) :
    Step (writing engine s) (.call call) (writing engine (call.finish s)) ∧
      ∃ c', (writing engine (call.finish s)).Holds c' ∧ c'.HasRoom count := by
  obtain ⟨_, _, home, c₀, _, hshows⟩ := id h
  have hroom' := hroom.mono (Nat.le_add_right call.writes count)
  have hstep : Step (writing engine s) (.call call) (writing engine (call.finish s)) :=
    .call call (hshows.lastEtag ▸ hroom'.1) (hshows.lastCounterId ▸ hroom'.2)
  obtain ⟨c', hholds', hevolves⟩ := hstep.holds h
  exact ⟨hstep, c', hholds', (hevolves nofun).hasRoom hroom⟩

/-- Any calls can follow each other in one writer while the sequences have room for all of them. -/
theorem Reachable.calls {engine : Engine} (calls : List Call) {s : Session} {c : Catalog}
    (h : Reachable (writing engine s)) (hholds : (writing engine s).Holds c)
    (hroom : c.HasRoom (calls.map Call.writes).sum) :
    Reachable (writing engine (calls.foldl (fun s call => call.finish s) s)) := by
  induction calls generalizing s c with
  | nil => exact h
  | cons call rest ih =>
      rw [List.map_cons, List.sum_cons] at hroom
      obtain ⟨hstep, c', hholds', hroom'⟩ := hholds.call hroom
      exact ih (h.step hstep) hholds' hroom'

/-- The stage of a store that is opened on no trees and makes these calls in its first writer. -/
def afterCalls (opening : Opening) (calls : List Call) : Except Error Stage := do
  let store ← opening.start .empty
  let (writer, engine) ← store.node.openWriter store.engine
  return writing engine (calls.foldl (fun s call => call.finish s) ⟨store.node, writer⟩)

/-- A valid opening and few enough calls lead to a stage of a run. -/
theorem exists_afterCalls (opening : Opening) (hvalid : opening.config.validate = .ok ())
    (hrequested : opening.requested ≠ some .nil) (hfresh : opening.fresh ≠ .nil)
    (calls : List Call) (hfew : (calls.map Call.writes).sum < UInt64.size) :
    ∃ engine s, afterCalls opening calls = .ok (writing engine s) ∧
      Reachable (writing engine s) := by
  obtain ⟨store, hstart, hholds⟩ := Opening.exists_start_empty hvalid hrequested hfresh
  have hopen := store.node.openWriter_of_unlocked hholds.unlocked
  have hstarted := Reachable.start hstart hfresh
  refine ⟨_, _, ?_, (hstarted.step (.openWriter hopen)).calls calls
    (c := .initial (opening.requested.getD opening.fresh)) ?_ ?_⟩
  · rw [afterCalls, hstart]
    simp only [bind, Except.bind, hopen]
    rfl
  · exact ⟨hholds.keeps.sound, hholds.keeps.records, store.node, _, hholds.keeps,
      hholds.keeps.shows_firstWriter⟩
  · have hzero : (0 : UInt64).toNat + (calls.map Call.writes).sum < UInt64.size := by
      rwa [UInt64.toNat_zero, Nat.zero_add]
    exact ⟨hzero, hzero⟩

/-- Whether a stage with an open writer is found so. -/
def finds (found : Engine → Session → Prop) [∀ engine, DecidablePred (found engine)] :
    Except Error Stage → Bool
  | .ok (writing engine s) => found engine s
  | _ => false

theorem exists_afterCalls_of_finds (opening : Opening)
    (hvalid : opening.config.validate = .ok ()) (hrequested : opening.requested ≠ some .nil)
    (hfresh : opening.fresh ≠ .nil) (calls : List Call)
    (hfew : (calls.map Call.writes).sum < UInt64.size)
    (found : Engine → Session → Prop) [∀ engine, DecidablePred (found engine)]
    (hfound : finds found (afterCalls opening calls) = true) :
    ∃ engine s, afterCalls opening calls = .ok (writing engine s) ∧
      Reachable (writing engine s) ∧ found engine s := by
  obtain ⟨engine, s, hcalls, hreachable⟩ :=
    exists_afterCalls opening hvalid hrequested hfresh calls hfew
  rw [hcalls] at hfound
  exact ⟨engine, s, hcalls, hreachable, of_decide_eq_true hfound⟩

end Stage

end CounterMesh
