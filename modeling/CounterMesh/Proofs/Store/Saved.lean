import CounterMesh.Proofs.Engine.Archive
import CounterMesh.Proofs.Store.Alike
import CounterMesh.Proofs.Store.Stages

/-!
# Saved stages of a run

The trees of a run are dense at every moment, so that the file that is saved
holds all of them: what is loaded from it is what was committed.
-/

namespace CounterMesh

namespace Call

/-- A call does the same in sessions of alike nodes. -/
theorem uniform_operation (call : Call) : Write.Uniform call.operation := by
  have hdiscard : ∀ {α : Type} {op : Write α}, Write.Uniform op → Write.Uniform (discard op) :=
    fun h => h.bind fun _ => .pure _
  cases call with
  | store group name delta => exact hdiscard Write.uniform_store
  | storeReplicated group name serverId sign value =>
      exact hdiscard Write.uniform_storeReplicated
  | reset group name => exact hdiscard Write.uniform_reset
  | delete group name => exact Write.uniform_delete_counter
  | purge => exact hdiscard Write.uniform_purgeBatch
  | apply message => exact hdiscard Write.uniform_applyMessage
  | recordPeerEtag serverId etag => exact Write.uniform_recordPeerEtag
  | updateReplication document => exact Write.uniform_updateReplication

theorem alike_finish (call : Call) {s s' : Session} (h : s.Alike s') :
    (call.finish s).Alike (call.finish s') := (call.uniform_operation.attempt_eq h).2

theorem dense_finish (call : Call) {s : Session} (h : s.writer.transaction.trees.Dense) :
    (call.finish s).writer.transaction.trees.Dense :=
  (call.alike_finish ⟨.refl s.node, rfl, h⟩).dense

end Call

namespace Opening

open Transaction (KeepsDense)

theorem keepsDense_createTrees : KeepsDense createTrees := by
  intro t t' hcreate
  refine relates_of_foldlM (R := fun _ t t' => t.trees.Dense → t'.trees.Dense) (fun _ => id)
    (fun hfirst hrest h => ?_) Layout.trees hcreate
  exact hrest (Transaction.keepsDense_createTree _ _ _ hfirst h)

theorem keepsDense_checkFormat : KeepsDense checkFormat := by
  intro t t' hcheck h
  obtain ⟨found, _, hcheck⟩ := exists_of_bind_eq_ok hcheck
  cases found with
  | none => exact Transaction.keepsDense_put _ _ t t' hcheck h
  | some found =>
      simp only at hcheck
      split at hcheck
      · cases hcheck
        exact h
      · cases hcheck

theorem dense_identify {t t' : Transaction} {id serverId : ServerId}
    (hid : identify t id = .ok (serverId, t')) (h : t.trees.Dense) : t'.trees.Dense := by
  obtain ⟨found, _, hid⟩ := exists_of_bind_eq_ok hid
  cases found with
  | none =>
      obtain ⟨t₁, hput, heq⟩ := exists_of_bind_eq_ok hid
      cases heq
      exact Transaction.keepsDense_put _ _ t t' hput h
  | some bytes =>
      simp only at hid
      split at hid
      · cases hid
        exact h
      · cases hid

variable {opening : Opening} {db : Database} {store : Store}

/-- The steps of an opening that succeeds: the transactions that they give, and the store that is
made of the last one. -/
structure Steps (opening : Opening) (db : Database) (store : Store) (t₁ t₂ t₃ : Transaction) :
    Prop where
  create : createTrees ⟨.readWrite, db⟩ = .ok t₁
  format : checkFormat t₁ = .ok t₂
  identify : identify t₂ (opening.requested.getD opening.fresh) = .ok (store.node.serverId, t₃)
  lastCounterId : Index.lastCounterId t₃ = .ok store.node.lastCounterId
  lastEtag : Index.lastEtag t₃ = .ok store.node.lastEtag
  engine : store.engine = Engine.commit ⟨db, true⟩ t₃
  file : store.node.file = opening.file
  changes : store.node.changes = { capacity := 1024 }

theorem exists_of_start (h : opening.start (.ofDatabase db) = .ok store) :
    ∃ t₁ t₂ t₃, Steps opening db store t₁ t₂ t₃ := by
  obtain ⟨hvalid, hrequested⟩ := valid_of_start h
  rw [start, hvalid, if_neg hrequested] at h
  obtain ⟨_, _, h⟩ := exists_of_bind_eq_ok h
  obtain ⟨_, hbegin, h⟩ := exists_of_bind_eq_ok h
  cases hbegin
  obtain ⟨t₁, hcreate, h⟩ := exists_of_bind_eq_ok h
  obtain ⟨t₂, hformat, h⟩ := exists_of_bind_eq_ok h
  obtain ⟨⟨serverId, t₃⟩, hid, h⟩ := exists_of_bind_eq_ok h
  obtain ⟨counterId, hcounterId, h⟩ := exists_of_bind_eq_ok h
  obtain ⟨etag, hetag, h⟩ := exists_of_bind_eq_ok h
  cases h
  exact ⟨t₁, t₂, t₃, hcreate, hformat, hid, hcounterId, hetag, rfl, rfl, rfl⟩

/-- A store opens on dense trees with dense trees. -/
theorem dense_start (h : db.Dense) (hstart : opening.start (.ofDatabase db) = .ok store) :
    store.engine.committed.Dense := by
  obtain ⟨t₁, t₂, t₃, hsteps⟩ := exists_of_start hstart
  have hdense : t₃.trees.Dense := dense_identify hsteps.identify
    (keepsDense_checkFormat _ _ hsteps.format (keepsDense_createTrees _ _ hsteps.create h))
  rw [hsteps.engine]
  exact Engine.dense_commit h hdense

theorem file_of_start (h : opening.start (.ofDatabase db) = .ok store) :
    store.node.file = opening.file := by
  obtain ⟨_, _, _, hsteps⟩ := exists_of_start h
  exact hsteps.file

end Opening

namespace Stage

variable {stage stage' : Stage} {event : Event}

/-- What was committed is dense, and so are the trees of an open writer. -/
structure Dense (stage : Stage) : Prop where
  committed : stage.engine.committed.Dense
  transaction : stage.transaction.trees.Dense

theorem Step.dense (hstep : Step stage event stage') (h : stage.Dense) : stage'.Dense := by
  cases hstep with
  | @openWriter store writer engine hopen =>
      obtain ⟨rfl, rfl⟩ := Node.eq_of_openWriter hopen
      exact ⟨h.committed, h.committed⟩
  | call call hetag hcounterId => exact ⟨h.committed, call.dense_finish h.transaction⟩
  | @commit engine s notify =>
      have hcommitted := Engine.dense_commit h.committed h.transaction
      exact ⟨hcommitted, hcommitted⟩
  | @drop engine s =>
      have hcommitted : (engine.drop s.writer.transaction).committed.Dense :=
        Engine.dense_drop h.committed
      exact ⟨hcommitted, hcommitted⟩
  | reopen hstart =>
      have hcommitted := Opening.dense_start h.committed hstart
      exact ⟨hcommitted, hcommitted⟩
  | outside clock signal => exact ⟨h.committed, h.committed⟩
  | outsideWriting clock signal => exact ⟨h.committed, h.transaction⟩

/-- One event in the life of a store that may also be opened from the file that is saved at this
moment. -/
inductive Turn : Stage → Event → Stage → Prop where
  | step {stage stage' : Stage} {event : Event} (h : Step stage event stage') :
      Turn stage event stage'
  | reload {store store' : Store} {opening : Opening} {db : Database}
      (hfile : Database.ofFile (some (Bytes.ofText store.engine.committed.save)) = .ok db)
      (hstart : opening.start (.ofDatabase db) = .ok store') :
      Turn (idle store) (.reopen opening) (idle store')

/-- What is loaded from the file of a store is what the store has committed. -/
theorem Turn.toStep (h : Turn stage event stage') (hdense : stage.Dense) :
    Step stage event stage' := by
  cases h with
  | step h => exact h
  | reload hfile hstart =>
      obtain rfl := Except.ok.inj (hfile.symm.trans (Database.ofFile_save hdense.committed))
      exact .reopen hstart

theorem Reachable.dense (h : Reachable stage) : stage.Dense := by
  induction h with
  | start hstart hfresh =>
      have hcommitted := Opening.dense_start Database.dense_empty hstart
      exact ⟨hcommitted, hcommitted⟩
  | step h hstep ih => exact hstep.dense ih

/-- The file that is saved at a moment of a run holds what was committed. -/
theorem Reachable.ofFile_save (h : Reachable stage) :
    Database.ofFile (some (Bytes.ofText stage.engine.committed.save)) =
      .ok stage.engine.committed :=
  Database.ofFile_save h.dense.committed

end Stage

end CounterMesh
