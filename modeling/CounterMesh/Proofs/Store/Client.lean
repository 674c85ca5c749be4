import CounterMesh.Proofs.Store.Alike
import CounterMesh.Store.Sweep

/-!
# Clients

A client works on an open store by writers, which it commits or drops, by purges
and by questions, and is answered or told an error at every turn. Stores that
differ only in what a node keeps in memory answer it alike.
-/

namespace CounterMesh

/-- What a client asks of a writer: a call, or any question about its trees. -/
inductive Request (α : Type) where
  | call (call : Call)
  | ask (question : ServerId → Transaction → Except Error α)

/-- What a client is told. -/
inductive Reply (α : Type) where
  | action (action : ChangeAction)
  /-- The delta of a reset. -/
  | delta (delta : Int64)
  | done
  /-- Whether there was anything to purge. -/
  | purged (any : Bool)
  /-- The number of batches of a purge. -/
  | batches (count : Nat)
  | applied (outcome : Applied)
  /-- The answer to a question. -/
  | told (answer : α)
  deriving DecidableEq

/-- A reply, or the error with which a request fails. -/
abbrev Answer (α : Type) := Except Error (Reply α)

/-- The operation of a call with its reply. -/
def Call.reply {α : Type} : Call → Write (Reply α)
  | store group name delta => .action <$> Write.store group name delta
  | storeReplicated group name serverId sign value =>
    .action <$> Write.storeReplicated group name serverId sign value
  | reset group name => .delta <$> Write.reset group name
  | delete group name => (fun _ => .done) <$> Write.delete group name
  | purge => .purged <$> Write.purgeBatch
  | apply message => .applied <$> Write.applyMessage message
  | recordPeerEtag serverId etag => (fun _ => .done) <$> Write.recordPeerEtag serverId etag
  | updateReplication document => (fun _ => .done) <$> Write.updateReplication document

namespace Request

variable {α : Type}

def operation : Request α → Write (Reply α)
  | .call c => c.reply
  | .ask question => do
    let serverId ← Write.serverId
    return .told (← Write.query (question serverId))

/-- How many numbers of each sequence a request may take. -/
def writes : Request α → Nat
  | .call c => c.writes
  | .ask _ => 0

/-- The requests of one writer, one after another. One that fails leaves what its steps before did,
and the next one follows. -/
def all (requests : List (Request α)) : Write (List (Answer α)) :=
  requests.mapM fun request => modifyGet (attempt request.operation)

/-- Every request takes place while both sequences have room for its writes. -/
def Fit : List (Request α) → Session → Prop
  | [], _ => True
  | request :: rest, s =>
    s.writer.lastEtag.toNat + request.writes < UInt64.size ∧
      s.writer.lastCounterId.toNat + request.writes < UInt64.size ∧
      Fit rest (attempt request.operation s).2

instance decidableFit : (requests : List (Request α)) → (s : Session) → Decidable (Fit requests s)
  | [], _ => .isTrue trivial
  | request :: rest, s =>
    have := decidableFit rest (attempt request.operation s).2
    inferInstanceAs (Decidable (_ ∧ _ ∧ _))

end Request

/-- What a client may read of an open store: its settings, its id and its sequences, and what is
committed. -/
structure View where
  config : Config
  serverId : ServerId
  lastEtag : Etag
  lastCounterId : CounterId
  reader : Transaction

def Store.view (store : Store) : View :=
  ⟨store.node.config, store.node.serverId, store.node.lastEtag, store.node.lastCounterId,
    store.engine.snapshot⟩

/-- What a client does with an open store. -/
inductive Deed (α : Type) where
  /-- Requests in one writer, which is committed if its answers are to be kept and dropped
  otherwise. -/
  | write (requests : List (Request α)) (notify : Bool) (keep : List (Answer α) → Bool)
  /-- Purges all tombstones that are older than the retention. -/
  | purge
  | ask (question : View → Except Error α)
  | setClock (clock : Clock)

namespace Deed

variable {α : Type}

def operation : Deed α → StoreM (List (Answer α))
  | write requests notify keep => StoreM.transact notify (Request.all requests) keep
  | purge => do return [.ok (.batches (← StoreM.purge))]
  | ask question => do return [(question (← get).view).map .told]
  | setClock clock => do
    StoreM.modifyNode fun node => { node with clock }
    return []

/-- The answers of a deed, and the store that it leaves. -/
def run (deed : Deed α) (store : Store) : List (Answer α) × Store :=
  match attempt deed.operation store with
  | (.ok answers, store) => (answers, store)
  | (.error e, store) => ([.error e], store)

/-- Every request of the deed takes place while both sequences have room for its writes. -/
def Fits : Deed α → Store → Prop
  | write requests _ _, store =>
    Request.Fit requests ⟨store.node, store.node.firstWriter store.engine.committed⟩
  | _, _ => True

instance decidableFits : (deed : Deed α) → (store : Store) → Decidable (deed.Fits store)
  | .write requests _ _, store => Request.decidableFit requests
      ⟨store.node, store.node.firstWriter store.engine.committed⟩
  | .purge, _ => .isTrue trivial
  | .ask _, _ => .isTrue trivial
  | .setClock _, _ => .isTrue trivial

end Deed

namespace Uniform

variable {σ α : Type} {R : σ → σ → Prop} {op : EStateM Error σ α}

theorem modifyGet_attempt (h : Uniform R op) :
    Uniform R (modifyGet (attempt op) : EStateM Error σ (Except Error α)) := by
  intro s s' hr
  obtain ⟨heq, hr'⟩ := h.attempt_eq hr
  have hrun : ∀ s : σ, (modifyGet (attempt op) : EStateM Error σ (Except Error α)).run s =
      .ok (attempt op s).1 (attempt op s).2 := fun _ => rfl
  rw [hrun, hrun, heq]
  exact .ok hr'

theorem mapM {β : Type} {f : β → EStateM Error σ α} (h : ∀ b, Uniform R (f b)) (list : List β) :
    Uniform R (list.mapM f) := by
  induction list with
  | nil => exact .pure _
  | cons b rest ih =>
      rw [List.mapM_cons]
      exact (h b).bind fun _ => ih.bind fun _ => .pure _

end Uniform

/-- The stores differ in nothing but the signals of their nodes, the subscriptions, the time of the
last commit and the sweeper. Their trees are dense. -/
structure Store.Alike (store store' : Store) : Prop where
  node : store.node.Alike store'.node
  engine : store'.engine = store.engine
  dense : store.engine.committed.Dense

theorem Store.Alike.view_eq {store store' : Store} (h : store.Alike store') :
    store'.view = store.view := by
  rw [Store.view, Store.view, h.node.config, h.node.serverId, h.node.lastEtag,
    h.node.lastCounterId, h.engine]

/-- Alike stores open the same writer. -/
theorem Store.Alike.openWriter_eq {store store' : Store} (h : store.Alike store') :
    store'.node.openWriter store'.engine = store.node.openWriter store.engine := by
  have hwriter : store'.node.writerOn = store.node.writerOn := by
    funext t
    rw [Node.writerOn, Node.writerOn, h.node.lastEtag, h.node.lastCounterId]
  rw [Node.openWriter, Node.openWriter, h.engine, hwriter]

section Alike

variable {α : Type}

theorem Call.uniform_reply (call : Call) : Write.Uniform (call.reply : Write (Reply α)) := by
  cases call with
  | store group name delta => exact Write.uniform_store.map
  | storeReplicated group name serverId sign value => exact Write.uniform_storeReplicated.map
  | reset group name => exact Write.uniform_reset.map
  | delete group name => exact Write.uniform_delete_counter.map
  | purge => exact Write.uniform_purgeBatch.map
  | apply message => exact Write.uniform_applyMessage.map
  | recordPeerEtag serverId etag => exact Write.uniform_recordPeerEtag.map
  | updateReplication document => exact Write.uniform_updateReplication.map

theorem Request.uniform_operation (request : Request α) : Write.Uniform request.operation := by
  cases request with
  | call call => exact call.uniform_reply
  | ask question =>
      exact Write.uniform_serverId.bind fun _ => Write.uniform_query.bind fun _ => .pure _

theorem Request.uniform_all (requests : List (Request α)) : Write.Uniform (all requests) :=
  .mapM (fun request => request.uniform_operation.modifyGet_attempt) requests

/-- The store after a writer is closed: committed if its work is kept, dropped otherwise. -/
def Session.close (s : Session) (engine : Engine) (notify kept : Bool) : Store :=
  if kept then
    ⟨(s.node.commit engine s.writer notify).1, (s.node.commit engine s.writer notify).2⟩
  else ⟨s.node, engine.drop s.writer.transaction⟩

theorem Session.Alike.close {s s' : Session} (h : s.Alike s') {engine : Engine}
    (hdense : engine.committed.Dense) (notify kept : Bool) :
    (s.close engine notify kept).Alike (s'.close engine notify kept) := by
  cases kept with
  | true =>
      refine ⟨⟨h.node.config, h.node.serverId, ?_, ?_, ?_, h.node.file⟩, ?_,
        Engine.dense_commit hdense h.dense⟩
      · exact congrArg (fun clock : Clock => clock.now.2) h.node.clock
      · exact congrArg Writer.lastEtag h.writer
      · exact congrArg Writer.lastCounterId h.writer
      · exact congrArg (fun writer : Writer => engine.commit writer.transaction) h.writer
  | false =>
      exact ⟨h.node, congrArg (fun writer : Writer => engine.drop writer.transaction) h.writer,
        Engine.dense_drop hdense⟩

namespace StoreM

variable {notify : Bool} {operation : Write α} {keep : α → Bool} {store : Store}

theorem run_transact_of_locked (notify : Bool) (operation : Write α) (keep : α → Bool)
    (h : store.engine.locked = true) :
    (transact notify operation keep).run store = .error (.engine .busy) store := by
  simp only [transact, EStateM.run_bind, EStateM.run_get, Node.openWriter_of_locked h]
  rfl

theorem run_transact_of_unlocked (notify : Bool) (operation : Write α) (keep : α → Bool)
    (h : store.engine.locked = false) :
    (transact notify operation keep).run store =
      match operation.run ⟨store.node, store.node.firstWriter store.engine.committed⟩ with
      | .ok a s => .ok a (s.close { store.engine with locked := true } notify (keep a))
      | .error e s => .error e (s.close { store.engine with locked := true } notify false) := by
  simp only [transact, EStateM.run_bind, EStateM.run_get, ofExcept,
    store.node.openWriter_of_unlocked h, EStateM.run_pure]
  cases operation.run ⟨store.node, store.node.firstWriter store.engine.committed⟩ with
  | ok a s =>
      simp only [Session.close]
      cases keep a <;> rfl
  | error e s => rfl

theorem uniform_transact (h : Write.Uniform operation) :
    Uniform Store.Alike (transact notify operation keep) := by
  intro store store' halike
  cases hlocked : store.engine.locked with
  | true =>
      rw [run_transact_of_locked _ _ _ hlocked,
        run_transact_of_locked _ _ _ (halike.engine ▸ hlocked)]
      exact .error halike
  | false =>
      have hwriter : store'.node.firstWriter store.engine.committed =
          store.node.firstWriter store.engine.committed := by
        rw [Node.firstWriter, Node.firstWriter, halike.node.lastEtag, halike.node.lastCounterId]
      have hrun := h ⟨store.node, store.node.firstWriter store.engine.committed⟩
        ⟨store'.node, store'.node.firstWriter store.engine.committed⟩
        ⟨halike.node, hwriter, halike.dense⟩
      have hdense : ({ store.engine with locked := true } : Engine).committed.Dense := halike.dense
      rw [run_transact_of_unlocked _ _ _ hlocked,
        run_transact_of_unlocked _ _ _ (halike.engine ▸ hlocked), halike.engine]
      generalize operation.run ⟨store.node, store.node.firstWriter store.engine.committed⟩ = r,
        operation.run ⟨store'.node, store'.node.firstWriter store.engine.committed⟩ = r' at hrun
      cases hrun with
      | ok h => exact .ok (h.close hdense _ _)
      | error h => exact .error (h.close hdense _ _)

theorem uniform_purgeBatches (fuel : Nat) : Uniform Store.Alike (purgeBatches fuel) := by
  induction fuel with
  | zero => exact .pure _
  | succ fuel ih =>
      refine (uniform_transact Write.uniform_purgeBatch).bind fun any => ?_
      cases any with
      | true => exact ih.bind fun _ => .pure _
      | false => exact .pure _

theorem uniform_purge : Uniform Store.Alike purge := by
  refine .get_bind fun store store' h => ?_
  rw [h.engine]
  exact uniform_purgeBatches _ _ _ h

end StoreM

theorem Deed.uniform_operation (deed : Deed α) : Uniform Store.Alike deed.operation := by
  cases deed with
  | write requests notify keep => exact StoreM.uniform_transact (Request.uniform_all requests)
  | purge => exact StoreM.uniform_purge.bind fun _ => .pure _
  | ask question =>
      refine .get_bind fun store store' h => ?_
      rw [h.view_eq]
      cases (question store.view).map Reply.told <;> exact .ok h
  | setClock clock =>
      have hmodify : Uniform Store.Alike
          (StoreM.modifyNode fun node => { node with clock }) :=
        .modify fun _ _ h => ⟨{ h.node with clock := rfl }, h.engine, h.dense⟩
      exact hmodify.bind fun _ => .pure _

/-- A deed has the same answers on alike stores, and leaves them alike. -/
theorem Deed.alike_run (deed : Deed α) {store store' : Store} (h : store.Alike store') :
    (deed.run store').1 = (deed.run store).1 ∧ (deed.run store).2.Alike (deed.run store').2 := by
  obtain ⟨heq, halike⟩ := deed.uniform_operation.attempt_eq h
  rw [run, run]
  generalize attempt deed.operation store = r, attempt deed.operation store' = r' at heq halike
  obtain ⟨result, store₁⟩ := r
  obtain ⟨result', store₁'⟩ := r'
  obtain rfl : result' = result := heq
  cases result' <;> exact ⟨rfl, halike⟩

end Alike

end CounterMesh
