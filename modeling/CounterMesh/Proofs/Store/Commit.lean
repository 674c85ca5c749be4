import CounterMesh.Proofs.Store.Evolution
import CounterMesh.Store

/-!
# Writers and their stores

A writer starts on the committed trees of its store with the sequences of the
node. A commit publishes what it did; a drop leaves the committed trees as they
were. An operation in a writer of its own is therefore published as a whole or
not at all.
-/

namespace CounterMesh

/-- A node and trees that were committed together present a sound catalog. -/
structure Node.Keeps (node : Node) (db : Database) (c : Catalog) : Prop where
  shows : db.Shows c.ledger
  sound : c.Sound
  records : c.Records node.serverId
  lastEtag : node.lastEtag = c.lastEtag
  lastCounterId : node.lastCounterId = c.lastCounterId
  serverId : node.serverId ≠ .nil

namespace Node

variable {node : Node} {engine : Engine}

/-- A writer on the committed trees. -/
def firstWriter (node : Node) (db : Database) : Writer :=
  ⟨⟨.readWrite, db⟩, node.lastEtag, node.lastCounterId, []⟩

theorem openWriter_of_unlocked (node : Node) (h : engine.locked = false) :
    node.openWriter engine =
      .ok (node.firstWriter engine.committed, { engine with locked := true }) := by
  rw [openWriter, Engine.begin, if_neg (by simp [h])]
  rfl

theorem openWriter_of_locked (h : engine.locked = true) :
    node.openWriter engine = .error (.engine .busy) := by
  rw [openWriter, Engine.begin, if_pos h]
  rfl

/-- A writer that opens is the first one on the committed trees, and locks them. -/
theorem eq_of_openWriter {writer : Writer} {engine' : Engine}
    (h : node.openWriter engine = .ok (writer, engine')) :
    writer = node.firstWriter engine.committed ∧ engine' = { engine with locked := true } := by
  cases hlocked : engine.locked with
  | true =>
      rw [openWriter_of_locked hlocked] at h
      cases h
  | false =>
      rw [node.openWriter_of_unlocked hlocked] at h
      exact (Prod.mk.inj (Except.ok.inj h)).imp Eq.symm Eq.symm

namespace Keeps

variable {db : Database} {c : Catalog}

/-- A new writer presents what was committed. -/
theorem shows_firstWriter (h : node.Keeps db c) :
    Session.Shows ⟨node, node.firstWriter db⟩ node c.ledger :=
  ⟨rfl, h.shows, h.lastEtag, h.lastCounterId, rfl⟩

theorem outside (h : node.Keeps db c) (clock : Clock) (signal : Signal) :
    Keeps { node with clock, signal } db c :=
  ⟨h.shows, h.sound, h.records, h.lastEtag, h.lastCounterId, h.serverId⟩

end Keeps

end Node

namespace Session.Shows

variable {s : Session} {home : Node} {c : Catalog} {engine : Engine}

/-- A writer presents one catalog only. -/
theorem catalog_unique {home' : Node} {c' : Catalog} (h : s.Shows home c.ledger)
    (h' : s.Shows home' c'.ledger) : c = c' :=
  Catalog.eq_of_shows h.trees h'.trees (h.lastEtag.symm.trans h'.lastEtag)
    (h.lastCounterId.symm.trans h'.lastCounterId)

/-- A commit keeps what the writer presents. -/
theorem commit (h : s.Shows home c.ledger) (hs : c.Sound) (hr : c.Records s.node.serverId)
    (hnode : home.serverId ≠ .nil) (engine : Engine) (notify : Bool) :
    (s.node.commit engine s.writer notify).1.Keeps
      (s.node.commit engine s.writer notify).2.committed c ∧
    (s.node.commit engine s.writer notify).2.locked = false := by
  have hengine : (s.node.commit engine s.writer notify).2 =
      ⟨s.writer.transaction.trees, false⟩ := by
    rw [Node.commit, Engine.commit, h.mode]
  refine ⟨?_, by rw [hengine]⟩
  refine { shows := ?_, sound := hs, records := hr, lastEtag := h.lastEtag,
           lastCounterId := h.lastCounterId, serverId := ?_ }
  · rw [hengine]
    exact h.trees
  · exact h.serverId_eq ▸ hnode

/-- A drop keeps what was committed before. -/
theorem drop {L : Ledger} (h : s.Shows home L) (engine : Engine)
    (hhome : home.Keeps engine.committed c) :
    s.node.Keeps (engine.drop s.writer.transaction).committed c ∧
      (engine.drop s.writer.transaction).locked = false := by
  have hengine : engine.drop s.writer.transaction = { engine with locked := false } := by
    rw [Engine.drop, h.mode]
  rw [hengine]
  refine ⟨?_, rfl⟩
  rw [h.node]
  exact hhome.outside _ _

end Session.Shows

/-- The committed trees of a store with valid settings present a sound catalog, and no writer is
open on them. -/
structure Store.Holds (store : Store) (serverId : ServerId) (c : Catalog) : Prop where
  keeps : store.node.Keeps store.engine.committed c
  unlocked : store.engine.locked = false
  serverId_eq : store.node.serverId = serverId
  valid : store.node.config.validate = .ok ()

namespace Store.Holds

variable {store : Store} {serverId : ServerId} {c : Catalog}

theorem outside (h : store.Holds serverId c) (clock : Clock) (signal : Signal) :
    Holds { store with node := { store.node with clock, signal } } serverId c :=
  ⟨h.keeps.outside clock signal, h.unlocked, h.serverId_eq, h.valid⟩

theorem records (h : store.Holds serverId c) : c.Records serverId :=
  h.serverId_eq ▸ h.keeps.records

end Store.Holds

namespace StoreM

variable {α : Type} {store : Store} {serverId : ServerId} {c : Catalog}

theorem returns_query {ask : Transaction → Except Error α} {a : α}
    (h : ask store.engine.snapshot = .ok a) :
    Returns (query ask) store fun a' store' => a' = a ∧ store' = store := by
  refine ⟨a, store, ?_, rfl, rfl⟩
  rw [query, EStateM.run_bind, EStateM.run_get]
  simp only [h]
  rfl

theorem returns_ofExcept {answer : Except Error α} {a : α} (h : answer = .ok a) :
    Returns (ofExcept answer) store fun a' store' => a' = a ∧ store' = store :=
  ⟨a, store, by rw [h]; rfl, rfl, rfl⟩

theorem returns_config :
    Returns config store fun config store' => config = store.node.config ∧ store' = store :=
  ⟨_, _, rfl, rfl, rfl⟩

/-- Reading the clock moves nothing else. -/
theorem returns_now (h : store.Holds serverId c) :
    Returns now store fun _ store' => store'.Holds serverId c :=
  ⟨_, _, rfl, h.outside store.node.clock.now.2 store.node.signal⟩

/-- What an operation in a writer of its own answers is published. -/
theorem returns_transact (operation : Write α) (post : α → Catalog → Prop)
    (h : store.Holds serverId c) (notify : Bool)
    (hop : ∀ s : Session, s.Shows store.node c.ledger → Returns operation s fun a s' =>
      ∃ c', post a c' ∧ c'.Sound ∧ c'.Records serverId ∧ s'.Shows store.node c'.ledger) :
    Returns (transact notify operation) store fun a store' =>
      ∃ c', post a c' ∧ store'.Holds serverId c' := by
  have hopen := store.node.openWriter_of_unlocked h.unlocked
  obtain ⟨a, s', hrun, c', hpost, hs, hr, hshows⟩ := hop _ h.keeps.shows_firstWriter
  have hid : s'.node.serverId = serverId := hshows.serverId_eq.trans h.serverId_eq
  have hvalid : s'.node.config.validate = .ok () := by
    rw [hshows.config_eq]
    exact h.valid
  obtain ⟨hkeeps, hunlocked⟩ := hshows.commit hs (hid.symm ▸ hr) h.keeps.serverId
    { store.engine with locked := true } notify
  refine ⟨a, ⟨_, _⟩, ?_, c', hpost, hkeeps, hunlocked, hid, hvalid⟩
  simp only [transact, EStateM.run_bind, EStateM.run_get, ofExcept, hopen, EStateM.run_pure, hrun]
  rfl

end StoreM

end CounterMesh
