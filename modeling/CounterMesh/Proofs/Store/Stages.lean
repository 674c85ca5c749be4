import CounterMesh.Proofs.Store.Runs

/-!
# Stages of a run and their catalogs

A stage has two catalogs: the one that readers see, which was committed last, and
the one of the next call. While a writer is open, its catalog follows the
committed one; at any other time the two are the same. All counters of both have
names, since no write of a counter without a name is accepted.
-/

namespace CounterMesh

theorem Catalog.initial_allNamed (serverId : ServerId) : (initial serverId).AllNamed := by
  intro k cell hk
  obtain ⟨id, hid, _⟩ := slot_eq_some_iff.1 hk
  cases hid

theorem Catalog.initial_documented (serverId : ServerId) : (initial serverId).Documented := by
  intro bytes hbytes
  rw [initial, metadata_setMetadata, Function.update_of_ne (by decide), metadata_setMetadata,
    Function.update_of_ne (by decide)] at hbytes
  cases hbytes

namespace Stage

variable {stage stage' : Stage} {event : Event} {base cur base' cur' : Catalog}

/-- The node of a stage. -/
def node : Stage → Node
  | idle store => store.node
  | writing _ s => s.node

/-- The engine of a stage. -/
def engine : Stage → Engine
  | idle store => store.engine
  | writing engine _ => engine

/-- What readers see: the trees that were committed last, also while a writer is open. -/
def reader (stage : Stage) : Transaction := stage.engine.snapshot

theorem Carries.keeps (h : stage.Carries base cur) :
    stage.node.Keeps stage.engine.committed base := by
  cases stage with
  | idle store => exact h.2
  | writing engine s =>
      obtain ⟨_, _, home, hcommitted, hshows⟩ := h
      show s.node.Keeps engine.committed base
      rw [hshows.node]
      exact hcommitted.outside _ _

/-- The catalogs of a stage in a run. -/
structure Presents (stage : Stage) (base cur : Catalog) : Prop where
  carries : stage.Carries base cur
  follows : base.Follows cur
  named_base : base.AllNamed
  named_cur : cur.AllNamed
  documented_base : base.Documented
  documented_cur : cur.Documented

namespace Presents

theorem start {opening : Opening} {store : Store} (hstart : opening.start .empty = .ok store)
    (hfresh : opening.fresh ≠ .nil) : (idle store).Presents (.initial store.node.serverId)
      (.initial store.node.serverId) where
  carries := ⟨rfl, (Opening.start_empty hstart hfresh).keeps⟩
  follows := .refl _
  named_base := Catalog.initial_allNamed _
  named_cur := Catalog.initial_allNamed _
  documented_base := Catalog.initial_documented _
  documented_cur := Catalog.initial_documented _

theorem keeps (h : stage.Presents base cur) : stage.node.Keeps stage.engine.committed base :=
  h.carries.keeps

theorem transaction_shows (h : stage.Presents base cur) :
    stage.transaction.trees.Shows cur.ledger :=
  (holds_iff_carries.2 ⟨base, h.carries⟩).transaction_shows

theorem reader_shows (h : stage.Presents base cur) : stage.reader.trees.Shows base.ledger :=
  h.keeps.shows

theorem sound_cur (h : stage.Presents base cur) : cur.Sound := by
  cases stage with
  | idle store =>
      obtain ⟨rfl, hkeeps⟩ := h.carries
      exact hkeeps.sound
  | writing engine s => exact h.carries.1

/-- The trees of a stage, those of an open writer and the committed ones, present a catalog whose
counters have names. -/
theorem has (h : stage.Presents base cur) {db : Database} {lastEtag : Etag}
    (hhas : stage.Has db lastEtag) :
    ∃ c : Catalog, c.Sound ∧ c.AllNamed ∧ db.Shows c.ledger ∧ lastEtag = c.lastEtag := by
  cases hhas with
  | committed => exact ⟨base, h.keeps.sound, h.named_base, h.keeps.shows, h.keeps.lastEtag⟩
  | writer =>
      obtain ⟨hs, _, home, _, hshows⟩ := h.carries
      exact ⟨cur, hs, h.named_cur, hshows.trees, hshows.lastEtag⟩
  | behind => exact ⟨base, h.keeps.sound, h.named_base, h.keeps.shows, h.keeps.lastEtag⟩

end Presents

theorem Step.presents (hstep : Step stage event stage') (h : stage.Presents base cur) :
    ∃ base' cur', stage'.Presents base' cur' ∧ Moves event base cur base' cur' := by
  obtain ⟨base', cur', hcarries, hmoves⟩ := hstep.carries h.carries
  refine ⟨base', cur', ?_, hmoves⟩
  cases hmoves with
  | call call hroom hevolves hnamed =>
      exact ⟨hcarries, h.follows.trans (hevolves.follows hroom), h.named_base, hnamed h.named_cur,
        h.documented_base, hevolves.documented h.documented_cur⟩
  | commit notify =>
      exact ⟨hcarries, .refl _, h.named_cur, h.named_cur, h.documented_cur, h.documented_cur⟩
  | drop =>
      exact ⟨hcarries, .refl _, h.named_base, h.named_base, h.documented_base, h.documented_base⟩
  | _ =>
      exact ⟨hcarries, h.follows, h.named_base, h.named_cur, h.documented_base, h.documented_cur⟩

/-- Every stage of a run has its two catalogs. -/
theorem Reachable.presents (h : Reachable stage) : ∃ base cur, stage.Presents base cur := by
  induction h with
  | start hstart hfresh =>
      exact ⟨_, _, .start hstart hfresh⟩
  | step h hstep ih =>
      obtain ⟨base, cur, hpresents⟩ := ih
      obtain ⟨base', cur', hpresents', _⟩ := hstep.presents hpresents
      exact ⟨base', cur', hpresents'⟩

/-- The settings of a stage are valid, and no writer is open between writers. -/
def Ready : Stage → Prop
  | idle store => store.engine.locked = false ∧ store.node.config.validate = .ok ()
  | writing _ s => s.node.config.validate = .ok ()

theorem Step.ready (hstep : Step stage event stage') (hcarries : stage.Carries base cur)
    (h : stage.Ready) : stage'.Ready := by
  cases hstep with
  | @openWriter store writer engine hopen => exact h.2
  | @call engine s call hetag hcounterId =>
      obtain ⟨hs, _, home, hcommitted, hshows⟩ := hcarries
      rw [hshows.lastEtag] at hetag
      rw [hshows.lastCounterId] at hcounterId
      obtain ⟨_, _, _, hshows'⟩ := call.finish_of_leaves
        (call.leaves_operation hshows hs ⟨hetag, hcounterId⟩ hcommitted.serverId)
      show (call.finish s).node.config.validate = .ok ()
      rw [hshows'.config_eq, ← hshows.config_eq]
      exact h
  | @commit engine s notify =>
      obtain ⟨hs, hr, home, hcommitted, hshows⟩ := hcarries
      exact ⟨(hshows.commit hs hr hcommitted.serverId engine notify).2, h⟩
  | @drop engine s =>
      obtain ⟨_, _, home, hcommitted, hshows⟩ := hcarries
      exact ⟨(hshows.drop engine hcommitted).2, h⟩
  | @reopen store store' opening hstart =>
      obtain ⟨rfl, hkeeps⟩ := hcarries
      have hagain := Opening.start_again hkeeps.shows hkeeps.sound hkeeps.records
        hkeeps.serverId hstart
      exact ⟨hagain.unlocked, hagain.valid⟩
  | outside clock signal => exact h
  | outsideWriting clock signal => exact h

/-- In every state of a run the settings are valid, and no writer is open between writers. -/
theorem Reachable.ready (h : Reachable stage) : stage.Ready := by
  induction h with
  | start hstart hfresh =>
      have hholds := Opening.start_empty hstart hfresh
      exact ⟨hholds.unlocked, hholds.valid⟩
  | step h hstep ih =>
      obtain ⟨_, _, hpresents⟩ := h.presents
      exact hstep.ready hpresents.carries ih

namespace Moves

/-- What is committed later follows what was committed before. -/
theorem follows_base (h : Moves event base cur base' cur') (hfollows : base.Follows cur) :
    base.Follows base' := by
  cases h with
  | commit notify => exact hfollows
  | _ => exact .refl _

/-- Only a commit changes what readers see. -/
theorem base_eq (h : Moves event base cur base' cur') (hcommit : ∀ notify, event ≠ .commit notify) :
    base' = base := by
  cases h with
  | commit notify => exact absurd rfl (hcommit notify)
  | _ => rfl

end Moves

end Stage

end CounterMesh
