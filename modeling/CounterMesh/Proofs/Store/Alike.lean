import CounterMesh.Proofs.Engine.Dense
import CounterMesh.Proofs.Store.Runs

/-!
# Alike nodes

A node keeps a few things in memory only: its signal, its subscriptions, the
time of the last commit and its sweeper. No operation reads them. On two nodes
that differ in nothing else every operation gives the same answer or the same
error and leaves the same trees, and the nodes are still alike.

The trees are dense throughout, which is what makes them fit to be saved.
-/

namespace CounterMesh

section Uniform

variable {σ α β : Type} {R : σ → σ → Prop}

/-- Two runs end with the same answer or the same error, in related states. -/
inductive Matches (R : σ → σ → Prop) :
    EStateM.Result Error σ α → EStateM.Result Error σ α → Prop where
  | ok {a : α} {s s' : σ} (h : R s s') : Matches R (.ok a s) (.ok a s')
  | error {e : Error} {s s' : σ} (h : R s s') : Matches R (.error e s) (.error e s')

/-- The operation does the same on related states. -/
def Uniform (R : σ → σ → Prop) (op : EStateM Error σ α) : Prop :=
  ∀ s s', R s s' → Matches R (op.run s) (op.run s')

namespace Uniform

variable {op : EStateM Error σ α} {next : α → EStateM Error σ β}

theorem pure (a : α) : Uniform R (Pure.pure a : EStateM Error σ α) := fun _ _ h => .ok h

theorem throw (e : Error) : Uniform R (throw e : EStateM Error σ α) := fun _ _ h => .error h

/-- Nothing comes after a failure. -/
theorem throw_bind (e : Error) : Uniform R ((MonadExcept.throw e : EStateM Error σ α) >>= next) :=
  fun _ _ h => .error h

theorem bind (h : Uniform R op) (hnext : ∀ a, Uniform R (next a)) : Uniform R (op >>= next) := by
  intro s s' hr
  have hrun := h s s' hr
  rw [EStateM.run_bind, EStateM.run_bind]
  generalize op.run s = r, op.run s' = r' at hrun
  cases hrun with
  | ok hr' => exact hnext _ _ _ hr'
  | error hr' => exact .error hr'

/-- What an operation reads from the state may decide how it goes on. -/
theorem get_bind {next : σ → EStateM Error σ α}
    (h : ∀ s s', R s s' → Matches R ((next s).run s) ((next s').run s')) :
    Uniform R (get >>= next) := h

theorem modify {f : σ → σ} (h : ∀ s s', R s s' → R (f s) (f s')) :
    Uniform R (modify f : EStateM Error σ PUnit) := fun s s' hr => .ok (h s s' hr)

theorem forM {f : α → EStateM Error σ PUnit} (h : ∀ a, Uniform R (f a)) (list : List α) :
    Uniform R (list.forM f) := by
  induction list with
  | nil => exact .pure _
  | cons a rest ih => exact (h a).bind fun _ => ih

theorem map {f : α → β} (h : Uniform R op) : Uniform R (f <$> op) := by
  rw [map_eq_pure_bind]
  exact h.bind fun _ => .pure _

/-- An attempt ends the same on related states. -/
theorem attempt_eq (h : Uniform R op) {s s' : σ} (hr : R s s') :
    (attempt op s').1 = (attempt op s).1 ∧ R (attempt op s).2 (attempt op s').2 := by
  have hrun := h s s' hr
  rw [attempt, attempt]
  generalize op.run s = r, op.run s' = r' at hrun
  cases hrun with
  | ok h => exact ⟨rfl, h⟩
  | error h => exact ⟨rfl, h⟩

end Uniform

end Uniform

/-- The nodes agree in everything that an operation reads. -/
structure Node.Alike (node node' : Node) : Prop where
  config : node'.config = node.config
  serverId : node'.serverId = node.serverId
  clock : node'.clock = node.clock
  lastEtag : node'.lastEtag = node.lastEtag
  lastCounterId : node'.lastCounterId = node.lastCounterId
  file : node'.file = node.file

theorem Node.Alike.refl (node : Node) : node.Alike node := ⟨rfl, rfl, rfl, rfl, rfl, rfl⟩

/-- Alike nodes with the same writer, whose trees are dense. -/
structure Session.Alike (s s' : Session) : Prop where
  node : s.node.Alike s'.node
  writer : s'.writer = s.writer
  dense : s.writer.transaction.trees.Dense

namespace Write

variable {α : Type}

/-- The operation does the same in sessions of alike nodes. -/
abbrev Uniform (op : Write α) : Prop := CounterMesh.Uniform Session.Alike op

theorem uniform_query {ask : Transaction → Except Error α} : Uniform (query ask) := by
  refine .get_bind fun s s' h => ?_
  rw [h.writer]
  cases ask s.writer.transaction with
  | ok a => exact .ok h
  | error e => exact .error h

theorem uniform_mutate {change : Transaction → Except Error Transaction}
    (hdense : Transaction.KeepsDense change) : Uniform (mutate change) := by
  intro s s' h
  have hchange' : change s'.writer.transaction = change s.writer.transaction := by rw [h.writer]
  cases hchange : change s.writer.transaction with
  | ok t =>
      obtain ⟨_, _, hrun, rfl⟩ := returns_mutate hchange
      obtain ⟨_, _, hrun', rfl⟩ := returns_mutate (hchange'.trans hchange)
      rw [hrun, hrun']
      exact .ok ⟨h.node, by rw [h.writer], hdense _ _ hchange h.dense⟩
  | error e =>
      obtain ⟨_, hrun, rfl⟩ := fails_mutate hchange
      obtain ⟨_, hrun', rfl⟩ := fails_mutate (hchange'.trans hchange)
      rw [hrun, hrun']
      exact .error h

theorem uniform_put {tree : String} {key value : Bytes} :
    Uniform (mutate fun t => t.put tree key value) :=
  uniform_mutate (Transaction.keepsDense_put key value)

theorem uniform_delete {tree : String} {key : Bytes} :
    Uniform (remove fun t => t.delete tree key) :=
  uniform_mutate (Transaction.keepsDense_delete key)

theorem uniform_multiAdd {tree : String} {key value : Bytes} :
    Uniform (mutate fun t => t.multiAdd tree key value) :=
  uniform_mutate (Transaction.keepsDense_multiAdd key value)

theorem uniform_multiDelete {tree : String} {key value : Bytes} :
    Uniform (remove fun t => t.multiDelete tree key value) :=
  uniform_mutate (Transaction.keepsDense_multiDelete key value)

theorem uniform_serverId : Uniform serverId := by
  refine .get_bind fun s s' h => ?_
  rw [h.node.serverId]
  exact .ok h

theorem uniform_config : Uniform config := by
  refine .get_bind fun s s' h => ?_
  rw [h.node.config]
  exact .ok h

theorem uniform_now : Uniform now := by
  refine .get_bind fun s s' h => ?_
  rw [h.node.clock]
  exact .ok ⟨{ h.node with clock := rfl }, h.writer, h.dense⟩

theorem uniform_signal : Uniform signal :=
  .modify fun _ _ h => ⟨{ h.node with }, h.writer, h.dense⟩

theorem uniform_record {change : Change} : Uniform (record change) :=
  .modify fun s s' h => ⟨h.node, by rw [h.writer], h.dense⟩

theorem uniform_next (q : Sequence) : Uniform q.next := by
  refine .get_bind fun s s' h => ?_
  rw [h.writer]
  have hmodify : ∀ number, Uniform (modify fun s : Session =>
      { s with writer := q.move number s.writer }) := fun number =>
    .modify fun s s' h => ⟨h.node, by rw [h.writer], by cases q <;> exact h.dense⟩
  exact ((hmodify _).bind fun _ => uniform_put.bind fun _ => .pure _) s s' h

theorem uniform_removeEtag {key : Bytes} : Uniform (removeEtag key) := by
  refine uniform_query.bind fun found => ?_
  cases found with
  | none => exact .pure _
  | some etag => exact uniform_delete.bind fun _ => uniform_delete

theorem uniform_reassignEtag {key : Bytes} : Uniform (reassignEtag key) := by
  have hlast : Uniform (do
      let etag ← nextEtag
      mutate fun t => t.put Layout.etagToKey (Word.big etag) key
      mutate fun t => t.put Layout.keyToEtag key (Word.big etag)) := by
    rw [← Sequence.next_etag]
    exact (uniform_next .etag).bind fun _ => uniform_put.bind fun _ => uniform_put
  refine uniform_query.bind fun found => ?_
  cases found with
  | none => exact hlast
  | some previous => exact uniform_delete.bind fun _ => hlast

theorem uniform_removeDate {ticks : Int64} {key : Bytes} : Uniform (removeDate ticks key) :=
  uniform_multiDelete

theorem uniform_removeTombstone {counterId : CounterId} : Uniform (removeTombstone counterId) := by
  refine uniform_query.bind fun found => ?_
  cases found with
  | none => exact .pure _
  | some ticks =>
      exact uniform_removeDate.bind fun _ => uniform_delete.bind fun _ =>
        uniform_removeEtag

theorem uniform_updateGroups {group name : String} {counterId : CounterId} {owner : Owner} :
    Uniform (updateGroups group name counterId owner) := by
  cases owner with
  | tombstone =>
      exact uniform_multiDelete.bind fun _ => uniform_multiAdd.bind fun _ =>
        uniform_put.bind fun _ => .pure _
  | node serverId =>
      exact uniform_multiAdd.bind fun _ => uniform_multiDelete.bind fun _ =>
        uniform_put.bind fun _ => uniform_removeTombstone

theorem uniform_writeSlot {key : Bytes} {write : SlotWrite} : Uniform (writeSlot key write) := by
  cases write with
  | increment magnitude => exact uniform_mutate (Transaction.keepsDense_increment _ _)
  | overwrite value => exact uniform_put
  | tombstone ticks =>
      have hlast : Uniform (do
          mutate fun t => t.put Layout.counters key (Word.little ticks)
          mutate fun t => t.multiAdd Layout.tombstonesByDate (Word.ordered ticks) key) :=
        uniform_put.bind fun _ => uniform_multiAdd
      refine uniform_query.bind fun found => ?_
      cases found with
      | none => exact hlast
      | some previous => exact uniform_removeDate.bind fun _ => hlast

theorem uniform_resolve {group name : String} : Uniform (resolve group name) := by
  refine uniform_query.bind fun live => ?_
  cases live with
  | some counterId => exact .pure _
  | none =>
      refine uniform_query.bind fun deleted => ?_
      cases deleted with
      | some counterId => exact .pure _
      | none =>
          rw [← Sequence.next_counterId]
          exact (uniform_next .counterId).bind fun _ => .pure _

theorem uniform_merge {group name : String} {owner : Owner} {sign : Sign} {write : SlotWrite} :
    Uniform (merge group name owner sign write) :=
  uniform_resolve.bind fun _ => uniform_updateGroups.bind fun _ =>
    uniform_writeSlot.bind fun _ => uniform_reassignEtag.bind fun _ =>
      uniform_signal.bind fun _ => .pure _

theorem uniform_checkNames {group name : String} : Uniform (checkNames group name) := by
  unfold checkNames
  cases group.isEmpty with
  | true => exact .throw_bind _
  | false =>
      cases name.isEmpty with
      | true => exact .throw _
      | false => exact .pure _

theorem uniform_store {group name : String} {delta : Int64} : Uniform (store group name delta) := by
  refine uniform_checkNames.bind fun _ => ?_
  have hlast : Uniform (do
      let serverId ← serverId
      let existed ← merge group name (.node serverId) (Sign.ofDelta delta) (.increment delta.abs)
      let action := actionOf existed (Sign.ofDelta delta)
      record ⟨group, name, action, serverId⟩
      return action) :=
    uniform_serverId.bind fun _ => uniform_merge.bind fun _ =>
      uniform_record.bind fun _ => .pure _
  split
  · exact .throw_bind _
  · exact hlast

theorem uniform_storeReplicated {group name : String} {serverId : ServerId} {sign : Sign}
    {value : Int64} : Uniform (storeReplicated group name serverId sign value) := by
  refine uniform_checkNames.bind fun _ => ?_
  cases Owner.ofServer serverId with
  | tombstone =>
      exact uniform_merge.bind fun _ => uniform_record.bind fun _ => .pure _
  | node serverId =>
      exact uniform_merge.bind fun _ => uniform_record.bind fun _ => .pure _

theorem uniform_checkLive {group name : String} : Uniform (checkLive group name) :=
  uniform_query.bind fun _ => .pure _

theorem uniform_resetLive {group name : String} : Uniform (resetLive group name) := by
  refine uniform_query.bind fun total => ?_
  have hlast : Uniform (do
      let _ ← store group name (-total)
      return -total) :=
    uniform_store.bind fun _ => .pure _
  split
  · exact .pure _
  · split
    · exact .throw_bind _
    · exact hlast

theorem uniform_reset {group name : String} : Uniform (reset group name) :=
  uniform_checkLive.bind fun _ => uniform_resetLive

theorem uniform_delete_counter {group name : String} : Uniform (delete group name) := by
  refine uniform_checkLive.bind fun _ => uniform_query.bind fun total => ?_
  have hlast : Uniform (do
      let ticks := ticksOf (← now)
      let _ ← merge group name .tombstone .positive (.tombstone ticks)
      record ⟨group, name, .delete, .nil⟩) :=
    uniform_now.bind fun _ => uniform_merge.bind fun _ => uniform_record
  split
  · exact uniform_store.bind fun _ => uniform_store.bind fun _ => hlast
  · exact uniform_resetLive.bind fun _ => hlast

theorem uniform_forgetName {counterId : CounterId} {key group : Bytes} :
    Uniform (forgetName counterId key group) :=
  uniform_query.bind fun _ => uniform_multiDelete.bind fun _ => uniform_delete

theorem uniform_forgetSlot {key : Bytes} : Uniform (forgetSlot key) :=
  uniform_removeEtag.bind fun _ => uniform_delete

theorem uniform_forget {counterId : CounterId} : Uniform (forget counterId) :=
  uniform_query.bind fun _ =>
    (CounterMesh.Uniform.forM (fun _ => uniform_forgetName) _).bind fun _ =>
      uniform_query.bind fun _ => .forM (fun _ => uniform_forgetSlot) _

theorem uniform_purgeTombstone {date key : Bytes} : Uniform (purgeTombstone date key) :=
  uniform_query.bind fun _ => uniform_forget.bind fun _ => uniform_multiDelete

theorem uniform_purgeBatch : Uniform purgeBatch :=
  uniform_config.bind fun _ => uniform_now.bind fun _ => uniform_query.bind fun _ =>
    (CounterMesh.Uniform.forM (fun _ => uniform_purgeTombstone) _).bind fun _ => .pure _

theorem uniform_recordPeerEtag {serverId : ServerId} {etag : Etag} :
    Uniform (recordPeerEtag serverId etag) := uniform_put

theorem uniform_updateReplication {document : ReplicationDocument} :
    Uniform (updateReplication document) := uniform_put.bind fun _ => uniform_signal

theorem uniform_alreadyApplied {entry : FeedEntry} : Uniform (alreadyApplied entry) := by
  refine uniform_serverId.bind fun serverId => ?_
  have hlast : Uniform (do
      let current ← query fun t =>
        Index.valueOf? t entry.group entry.name (.ofServer entry.serverId) entry.sign
      if current = some entry.value then
        let live ← query fun t => Index.liveId? t entry.group entry.name
        return live.isSome != entry.serverId.isNil
      else return false) := by
    refine uniform_query.bind fun current => ?_
    split
    · exact uniform_query.bind fun _ => .pure _
    · exact .pure _
  split
  · exact .pure _
  · exact hlast

theorem uniform_applyEntries {entries : List FeedEntry} : Uniform (applyEntries entries) := by
  induction entries with
  | nil => exact .pure _
  | cons entry rest ih =>
      refine uniform_alreadyApplied.bind fun applied => ?_
      cases applied with
      | true => exact ih.bind fun _ => .pure _
      | false => exact uniform_storeReplicated.bind fun _ => ih.bind fun _ => .pure _

theorem uniform_applyMessage {message : Message} : Uniform (applyMessage message) := by
  refine uniform_applyEntries.bind fun outcome => ?_
  cases message.lastEtag with
  | none => exact .pure _
  | some etag =>
      exact uniform_query.bind fun _ => uniform_recordPeerEtag.bind fun _ => .pure _

end Write

end CounterMesh
