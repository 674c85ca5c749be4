import CounterMesh.Proofs.Engine.Archive
import CounterMesh.Proofs.Engine.Serial
import Mathlib.Logic.Function.Basic

/-!
# Transactions side by side

The clients of an engine begin transactions, perform operations in them, and
commit or drop them, each at its own time. At most one of the open transactions
may write. Whatever the order of these events, the committed transactions could
have run one after another, a read transaction answers from what was committed
when it began, and a transaction that is not committed might as well not have
been there.
-/

namespace CounterMesh

namespace Traffic

/-- What happens on an engine. Transactions are told apart by numbers. -/
inductive Event where
  | begin (id : Nat) (mode : Mode)
  /-- A transaction is not admitted. -/
  | refuse (mode : Mode) (e : Error)
  | perform (id : Nat) (op : TreeOp) (answer : TreeReply)
  | commit (id : Nat) (mode : Mode)
  | drop (id : Nat)

/-- How far a transaction has come. -/
inductive Phase where
  | unused
  | opened (t : Transaction)
  | closed

namespace Phase

/-- The transaction is open and may write. -/
def Writes : Phase → Prop
  | opened t => t.mode = .readWrite
  | _ => False

@[simp] theorem not_writes_unused : ¬ unused.Writes := nofun

@[simp] theorem not_writes_closed : ¬ closed.Writes := nofun

@[simp] theorem writes_opened {t : Transaction} : (opened t).Writes ↔ t.mode = .readWrite := Iff.rfl

end Phase

end Traffic

/-- An engine with the transactions of its clients. -/
structure Traffic where
  engine : Engine
  phase : Nat → Traffic.Phase

namespace Traffic

/-- The engine and one transaction move on. -/
def set (w : Traffic) (engine : Engine) (id : Nat) (phase : Phase) : Traffic :=
  ⟨engine, Function.update w.phase id phase⟩

/-- One event on an engine: a transaction begins, is refused, performs an operation, or ends. -/
inductive Step : Traffic → Event → Traffic → Prop where
  | begin {w : Traffic} {id : Nat} {mode : Mode} {t : Transaction} {engine : Engine}
      (hid : w.phase id = .unused) (h : w.engine.begin mode = .ok (t, engine)) :
      Step w (.begin id mode) (w.set engine id (.opened t))
  | refuse {w : Traffic} {mode : Mode} {e : Error} (h : w.engine.begin mode = .error e) :
      Step w (.refuse mode e) w
  | perform {w : Traffic} {id : Nat} {t : Transaction} (hid : w.phase id = .opened t)
      (op : TreeOp) :
      Step w (.perform id op (t.perform op).1) (w.set w.engine id (.opened (t.perform op).2))
  | commit {w : Traffic} {id : Nat} {t : Transaction} (hid : w.phase id = .opened t) :
      Step w (.commit id t.mode) (w.set (w.engine.commit t) id .closed)
  | drop {w : Traffic} {id : Nat} {t : Transaction} (hid : w.phase id = .opened t) :
      Step w (.drop id) (w.set (w.engine.drop t) id .closed)

/-- These events in a row, on an engine that starts with a committed state and no transactions. -/
inductive Run (db : Database) : List Event → Traffic → Prop where
  | start : Run db [] ⟨.ofDatabase db, fun _ => .unused⟩
  | step {events : List Event} {w w' : Traffic} (h : Run db events w) (event : Event)
      (hstep : Step w event w') : Run db (events ++ [event]) w'

/-- The operation of a transaction in an event, with its answer. -/
def Event.performed? (id : Nat) : Event → Option (TreeOp × TreeReply)
  | .perform id' op answer => if id' = id then some (op, answer) else none
  | _ => none

/-- The operations of a transaction with their answers. -/
def transcript (events : List Event) (id : Nat) : List (TreeOp × TreeReply) :=
  events.filterMap (Event.performed? id)

/-- The read-write transaction that an event commits. -/
def Event.committed? : Event → Option Nat
  | .commit id .readWrite => some id
  | _ => none

/-- The read-write transactions that were committed, in the order of their commits. -/
def committed (events : List Event) : List Nat := events.filterMap Event.committed?

/-- The event is left when the transactions in `gone`, every refusal and every operation that
failed are taken out. -/
def Event.remains (gone : Nat → Bool) : Event → Bool
  | .begin id _ => !gone id
  | .refuse _ _ => false
  | .perform id _ answer => !gone id && answer.isOk
  | .commit id _ => !gone id
  | .drop id => !gone id

variable {w w' : Traffic} {event : Event} {events : List Event} {db : Database} {id id' : Nat}
variable {engine : Engine} {phase : Phase}

@[simp] theorem engine_set : (w.set engine id phase).engine = engine := rfl

@[simp] theorem phase_set_self : (w.set engine id phase).phase id = phase :=
  Function.update_self ..

theorem phase_set_of_ne (h : id' ≠ id) : (w.set engine id phase).phase id' = w.phase id' :=
  Function.update_of_ne h ..

@[simp] theorem transcript_concat : transcript (events ++ [event]) id =
    transcript events id ++ (event.performed? id).toList := by
  rw [transcript, List.filterMap_append]
  cases hperformed : event.performed? id <;> simp [transcript, hperformed]

@[simp] theorem committed_concat :
    committed (events ++ [event]) = committed events ++ event.committed?.toList := by
  rw [committed, List.filterMap_append]
  cases hcommitted : event.committed? <;> simp [committed, hcommitted]

/-- The write lock is held by the one open transaction that may write, if there is one. -/
structure Exclusive (w : Traffic) : Prop where
  locked_iff : w.engine.locked = true ↔ ∃ id, (w.phase id).Writes
  unique : ∀ {id id'}, (w.phase id).Writes → (w.phase id').Writes → id = id'

/-- A transaction that begins has the committed trees; one that may write takes the free lock. -/
theorem begin_eq_ok {mode : Mode} {t : Transaction} (h : w.engine.begin mode = .ok (t, engine)) :
    t = ⟨mode, w.engine.committed⟩ ∧ engine.committed = w.engine.committed ∧
      (mode = .read ∧ engine = w.engine ∨
        mode = .readWrite ∧ w.engine.locked = false ∧ engine.locked = true) := by
  cases mode with
  | read =>
      cases h
      exact ⟨rfl, rfl, .inl ⟨rfl, rfl⟩⟩
  | readWrite =>
      cases hlocked : w.engine.locked with
      | true =>
          rw [Engine.begin, if_pos hlocked] at h
          cases h
      | false =>
          rw [Engine.begin, if_neg (by simp [hlocked])] at h
          cases h
          exact ⟨rfl, rfl, .inr ⟨rfl, rfl, rfl⟩⟩

namespace Exclusive

theorem writes_set_iff : ((w.set engine id phase).phase id').Writes ↔
    id' = id ∧ phase.Writes ∨ id' ≠ id ∧ (w.phase id').Writes := by
  by_cases hid : id' = id
  · subst hid
    simp
  · simp [phase_set_of_ne hid, hid]

/-- A transaction moves on and writes as before. -/
theorem same (h : w.Exclusive) (hwrites : phase.Writes ↔ (w.phase id).Writes)
    (hlocked : engine.locked = w.engine.locked) : (w.set engine id phase).Exclusive := by
  have hiff : ∀ id', ((w.set engine id phase).phase id').Writes ↔ (w.phase id').Writes := by
    intro id'
    rw [writes_set_iff, hwrites]
    by_cases hid : id' = id
    · subst hid
      simp
    · simp [hid]
  refine ⟨?_, fun {id₁ id₂} h₁ h₂ => h.unique ((hiff id₁).1 h₁) ((hiff id₂).1 h₂)⟩
  rw [engine_set, hlocked, h.locked_iff]
  exact exists_congr fun id' => (hiff id').symm

/-- A writer begins while there is none. -/
theorem acquire (h : w.Exclusive) (hfree : w.engine.locked = false) (hphase : phase.Writes)
    (hlocked : engine.locked = true) : (w.set engine id phase).Exclusive := by
  have hnone : ∀ id', ¬ (w.phase id').Writes := by
    intro id' hid'
    rw [h.locked_iff.2 ⟨id', hid'⟩] at hfree
    cases hfree
  have hiff : ∀ id', ((w.set engine id phase).phase id').Writes ↔ id' = id := by
    intro id'
    rw [writes_set_iff, and_iff_left hphase, or_iff_left fun hid' => hnone id' hid'.2]
  refine ⟨iff_of_true hlocked ⟨id, (hiff id).2 rfl⟩, fun {id₁ id₂} h₁ h₂ => ?_⟩
  rw [(hiff id₁).1 h₁, (hiff id₂).1 h₂]

/-- The writer ends. -/
theorem release (h : w.Exclusive) (hid : (w.phase id).Writes)
    (hlocked : engine.locked = false) : (w.set engine id .closed).Exclusive := by
  have hnone : ∀ id', ¬ ((w.set engine id .closed).phase id').Writes := by
    intro id' hid'
    rcases writes_set_iff.1 hid' with ⟨_, hwrites⟩ | ⟨hne, hwrites⟩
    · exact hwrites
    · exact hne (h.unique hwrites hid)
  refine ⟨iff_of_false ?_ fun ⟨id', hid'⟩ => hnone id' hid', fun h₁ _ => absurd h₁ (hnone _)⟩
  rw [engine_set, hlocked]
  exact Bool.false_ne_true

/-- A transaction ends, and the lock is free if it could write. -/
theorem close {t : Transaction} (h : w.Exclusive) (hid : w.phase id = .opened t)
    (hread : t.mode = .read → engine.locked = w.engine.locked)
    (hwrite : t.mode = .readWrite → engine.locked = false) :
    (w.set engine id .closed).Exclusive := by
  cases hmode : t.mode with
  | read => exact h.same (iff_of_false nofun (by simp [hid, hmode])) (hread hmode)
  | readWrite => exact h.release (by simp [hid, hmode]) (hwrite hmode)

end Exclusive

theorem Step.exclusive (hstep : Step w event w') (h : w.Exclusive) : w'.Exclusive := by
  cases hstep with
  | begin hid hbegin =>
      obtain ⟨rfl, _, ⟨rfl, rfl⟩ | ⟨rfl, hfree, hlocked⟩⟩ := begin_eq_ok hbegin
      · exact h.same (iff_of_false (by simp) (by simp [hid])) rfl
      · exact h.acquire hfree rfl hlocked
  | refuse hbegin => exact h
  | perform hid op => exact h.same (by simp [hid]) rfl
  | commit hid =>
      refine h.close hid (fun hmode => ?_) fun hmode => ?_
      · rw [Engine.commit, hmode]
      · rw [Engine.commit, hmode]
  | drop hid =>
      refine h.close hid (fun hmode => ?_) fun hmode => ?_
      · rw [Engine.drop, hmode]
      · rw [Engine.drop, hmode]

theorem Run.exclusive (h : Run db events w) : w.Exclusive := by
  induction h with
  | start => exact ⟨iff_of_false Bool.false_ne_true fun ⟨_, hid⟩ => hid, fun h => h.elim⟩
  | step h _ hstep ih => exact hstep.exclusive ih

/-- No key of a multi tree is left without values, in what is committed and in what is open. -/
structure Dense (w : Traffic) : Prop where
  committed : w.engine.committed.Dense
  opened : ∀ id t, w.phase id = .opened t → t.trees.Dense

theorem Dense.set (h : w.Dense) (hcommitted : engine.committed.Dense)
    (hopened : ∀ t, phase = .opened t → t.trees.Dense) : (w.set engine id phase).Dense where
  committed := hcommitted
  opened := by
    intro id' t hphase
    by_cases heq : id' = id
    · rw [heq, phase_set_self] at hphase
      exact hopened t hphase
    · rw [phase_set_of_ne heq] at hphase
      exact h.opened id' t hphase

theorem Step.dense (hstep : Step w event w') (h : w.Dense) : w'.Dense := by
  cases hstep with
  | @begin id mode t engine hid hbegin =>
      obtain ⟨rfl, hengine, _⟩ := begin_eq_ok hbegin
      refine h.set (hengine ▸ h.committed) ?_
      rintro _ ⟨⟩
      exact h.committed
  | refuse hbegin => exact h
  | @perform id t hid op =>
      refine h.set h.committed ?_
      rintro _ ⟨⟩
      exact Transaction.dense_perform (h.opened id t hid) op
  | @commit id t hid => exact h.set (Engine.dense_commit h.committed (h.opened id t hid)) nofun
  | @drop id t hid => exact h.set (Engine.dense_drop h.committed) nofun

theorem Run.dense (h : Run db events w) (hdense : db.Dense) : w.Dense := by
  induction h with
  | start => exact ⟨hdense, nofun⟩
  | step h _ hstep ih => exact hstep.dense ih

/-- Whatever is committed on dense trees comes back from the file that it is saved to. -/
theorem Run.ofFile_save (h : Run db events w) (hdense : db.Dense) :
    Database.ofFile (some (Bytes.ofText w.engine.committed.save)) = .ok w.engine.committed :=
  Database.ofFile_save (h.dense hdense).committed

/-- The operations of a transaction. -/
def operations (events : List Event) (id : Nat) : List TreeOp :=
  (transcript events id).map Prod.fst

/-- The answers of a transaction. -/
def answers (events : List Event) (id : Nat) : List TreeReply :=
  (transcript events id).map Prod.snd

/-- An event in which a transaction does nothing tells nothing about it. -/
theorem transcript_of_silent (h : event.performed? id = none) :
    transcript (events ++ [event]) id = transcript events id := by
  rw [transcript_concat, h, Option.toList_none, List.append_nil]

theorem operations_of_silent (h : event.performed? id = none) :
    operations (events ++ [event]) id = operations events id := by
  rw [operations, operations, transcript_of_silent h]

theorem answers_of_silent (h : event.performed? id = none) :
    answers (events ++ [event]) id = answers events id := by
  rw [answers, answers, transcript_of_silent h]

theorem committed_of_open (h : event.committed? = none) :
    committed (events ++ [event]) = committed events := by
  rw [committed_concat, h, Option.toList_none, List.append_nil]

/-- The committed transactions answer what they answered and commit what they committed when they
run one after another, in the order of their commits. -/
def Serializes (db : Database) (events : List Event) (w : Traffic) : Prop :=
  (Engine.ofDatabase db).serial ((committed events).map (operations events)) =
    .ok ((committed events).map (answers events), .ofDatabase w.engine.committed)

/-- What stands behind the serial history while transactions are open: the open writer comes from
the committed trees by its operations. -/
structure Recounts (db : Database) (events : List Event) (w : Traffic) : Prop where
  serializes : Serializes db events w
  unused : ∀ id, w.phase id = .unused → transcript events id = []
  closed : ∀ id ∈ committed events, w.phase id = .closed
  opened : ∀ id t, w.phase id = .opened t → t.mode = .readWrite →
    (Transaction.mk .readWrite w.engine.committed).performAll (operations events id) =
      (answers events id, t)

namespace Recounts

/-- Closed transactions do nothing, so that an event does not change what they did. -/
theorem map_committed (h : Recounts db events w)
    (hperformed : ∀ id, w.phase id = .closed → event.performed? id = none) :
    (committed events).map (operations (events ++ [event])) =
        (committed events).map (operations events) ∧
      (committed events).map (answers (events ++ [event])) =
        (committed events).map (answers events) :=
  ⟨List.map_congr_left fun id hid => operations_of_silent (hperformed id (h.closed id hid)),
    List.map_congr_left fun id hid => answers_of_silent (hperformed id (h.closed id hid))⟩

/-- An event that commits nothing leaves the serial history. -/
theorem serializes_concat (h : Recounts db events w) (hcommitted : event.committed? = none)
    (hperformed : ∀ id, w.phase id = .closed → event.performed? id = none)
    (hengine : w'.engine.committed = w.engine.committed) :
    Serializes db (events ++ [event]) w' := by
  obtain ⟨hoperations, hanswers⟩ := h.map_committed hperformed
  rw [Serializes, committed_of_open hcommitted, hoperations, hanswers, hengine]
  exact h.serializes

/-- A transaction moves on while the committed trees stay as they are. -/
theorem set (h : Recounts db events w) (hcommitted : event.committed? = none)
    (hperformed : ∀ id', id' ≠ id → event.performed? id' = none)
    (hengine : engine.committed = w.engine.committed) (hid : w.phase id ≠ .closed)
    (hunused : phase ≠ .unused)
    (hopened : ∀ t, phase = .opened t → t.mode = .readWrite →
      (Transaction.mk .readWrite w.engine.committed).performAll
        (operations (events ++ [event]) id) = (answers (events ++ [event]) id, t)) :
    Recounts db (events ++ [event]) (w.set engine id phase) where
  serializes := by
    refine h.serializes_concat hcommitted (fun id' hclosed => hperformed id' ?_) hengine
    rintro rfl
    exact hid hclosed
  unused := by
    intro id' hphase
    by_cases heq : id' = id
    · rw [heq, phase_set_self] at hphase
      exact absurd hphase hunused
    · rw [phase_set_of_ne heq] at hphase
      rw [transcript_of_silent (hperformed id' heq), h.unused id' hphase]
  closed := by
    intro id' hmem
    rw [committed_of_open hcommitted] at hmem
    have hclosed := h.closed id' hmem
    rwa [phase_set_of_ne]
    rintro rfl
    exact hid hclosed
  opened := by
    intro id' t hphase hmode
    rw [engine_set, hengine]
    by_cases heq : id' = id
    · rw [heq, phase_set_self] at hphase
      rw [heq]
      exact hopened t hphase hmode
    · rw [phase_set_of_ne heq] at hphase
      rw [operations_of_silent (hperformed id' heq), answers_of_silent (hperformed id' heq)]
      exact h.opened id' t hphase hmode

/-- The writer is committed: it is the last one of the serial history. -/
theorem commit (h : Recounts db events w) (hexclusive : w.Exclusive) {t : Transaction}
    (hid : w.phase id = .opened t) (hmode : t.mode = .readWrite) :
    Recounts db (events ++ [.commit id .readWrite]) (w.set (w.engine.commit t) id .closed) where
  serializes := by
    obtain ⟨hoperations, hanswers⟩ :=
      h.map_committed fun id' _ => (rfl : (Event.commit id .readWrite).performed? id' = none)
    have hengine : w.engine.commit t = .ofDatabase t.trees := by
      rw [Engine.commit, hmode]
      rfl
    have hlast : (Engine.ofDatabase w.engine.committed).transact (operations events id) =
        .ok (answers events id, .ofDatabase t.trees) :=
      Engine.transact_ofDatabase ((h.opened id t hid hmode).trans (by rw [← hmode]))
    have hserial := Engine.serial_concat h.serializes hlast
    rw [Serializes, committed_concat, Event.committed?, Option.toList_some, List.map_append,
      List.map_append, hoperations, hanswers, engine_set, hengine, List.map_singleton,
      List.map_singleton, operations_of_silent rfl, answers_of_silent rfl]
    exact hserial
  unused := by
    intro id' hphase
    rw [transcript_of_silent rfl]
    by_cases heq : id' = id
    · rw [heq, phase_set_self] at hphase
      cases hphase
    · rw [phase_set_of_ne heq] at hphase
      exact h.unused id' hphase
  closed := by
    intro id' hmem
    by_cases heq : id' = id
    · rw [heq, phase_set_self]
    · rw [phase_set_of_ne heq]
      rw [committed_concat, Event.committed?, Option.toList_some, List.mem_append,
        List.mem_singleton, or_iff_left heq] at hmem
      exact h.closed id' hmem
  opened := by
    -- There is no second writer.
    intro id' t' hphase hmode'
    by_cases heq : id' = id
    · rw [heq, phase_set_self] at hphase
      cases hphase
    · rw [phase_set_of_ne heq] at hphase
      exact absurd (hexclusive.unique (by simp [hphase, hmode']) (by simp [hid, hmode])) heq

end Recounts

theorem Step.recounts (hstep : Step w event w') (hexclusive : w.Exclusive)
    (h : Recounts db events w) : Recounts db (events ++ [event]) w' := by
  cases hstep with
  | @begin id mode t engine hid hbegin =>
      obtain ⟨rfl, hengine, _⟩ := begin_eq_ok hbegin
      refine h.set rfl (fun _ _ => rfl) hengine (by rw [hid]; nofun) nofun ?_
      rintro _ ⟨⟩ rfl
      rw [operations_of_silent rfl, answers_of_silent rfl, operations, answers, h.unused id hid]
      rfl
  | @refuse mode e hbegin =>
      refine ⟨h.serializes_concat rfl (fun _ _ => rfl) rfl, fun id hphase => ?_, ?_, ?_⟩
      · rw [transcript_of_silent rfl, h.unused id hphase]
      · rw [committed_of_open rfl]
        exact h.closed
      · intro id t hphase hmode
        rw [operations_of_silent rfl, answers_of_silent rfl]
        exact h.opened id t hphase hmode
  | @perform id t hid op =>
      refine h.set rfl (fun id' hne => if_neg hne.symm) rfl (by rw [hid]; nofun) nofun ?_
      rintro _ ⟨⟩ hmode
      rw [Transaction.mode_perform] at hmode
      have hmore : transcript (events ++ [.perform id op (t.perform op).1]) id =
          transcript events id ++ [(op, (t.perform op).1)] := by
        rw [transcript_concat, Event.performed?, if_pos rfl]
        rfl
      have hopened := h.opened id t hid hmode
      rw [operations, answers] at hopened ⊢
      rw [hmore, List.map_append, List.map_append, List.map_singleton, List.map_singleton,
        Transaction.performAll_concat, hopened]
  | @commit id t hid =>
      cases hmode : t.mode with
      | read =>
          refine h.set rfl (fun _ _ => rfl) ?_ (by rw [hid]; nofun) nofun nofun
          rw [Engine.commit, hmode]
      | readWrite => exact h.commit hexclusive hid hmode
  | @drop id t hid =>
      exact h.set rfl (fun _ _ => rfl) (Engine.committed_drop _ t) (by rw [hid]; nofun) nofun nofun

theorem Run.recounts (h : Run db events w) : Recounts db events w := by
  induction h with
  | start => exact ⟨rfl, fun _ _ => rfl, nofun, nofun⟩
  | step h _ hstep ih => exact hstep.recounts h.exclusive ih

/-- A read transaction that began on these trees has them still, or has ended. -/
def Phase.Reads (phase : Phase) (db : Database) : Prop :=
  phase = .opened ⟨.read, db⟩ ∨ phase = .closed

/-- A read transaction answers from its trees, whatever else happens. -/
theorem Step.reads (hstep : Step w event w') {db : Database} (h : (w.phase id).Reads db) :
    (w'.phase id).Reads db ∧
      ∀ op answer, event = .perform id op answer →
        answer = ((Transaction.mk .read db).perform op).1 := by
  cases hstep with
  | @begin id' mode t engine hid hbegin =>
      have hne : id ≠ id' := by
        rintro rfl
        rw [hid] at h
        rcases h with h | h <;> cases h
      exact ⟨by rwa [phase_set_of_ne hne], nofun⟩
  | refuse hbegin => exact ⟨h, nofun⟩
  | @perform id' t hid op =>
      by_cases heq : id = id'
      · subst heq
        rw [hid] at h
        rcases h with h | h
        · cases h
          rw [phase_set_self, Transaction.perform_read rfl]
          refine ⟨.inl rfl, ?_⟩
          rintro _ _ ⟨⟩
          rfl
        · cases h
      · refine ⟨by rwa [phase_set_of_ne heq], ?_⟩
        rintro _ _ ⟨⟩
        exact absurd rfl heq
  | @commit id' t hid =>
      by_cases heq : id = id'
      · exact ⟨heq ▸ phase_set_self.symm ▸ .inr rfl, nofun⟩
      · exact ⟨by rwa [phase_set_of_ne heq], nofun⟩
  | @drop id' t hid =>
      by_cases heq : id = id'
      · exact ⟨heq ▸ phase_set_self.symm ▸ .inr rfl, nofun⟩
      · exact ⟨by rwa [phase_set_of_ne heq], nofun⟩

theorem Run.reads (h : Run db events w) {before after : List Event}
    (hevents : events = before ++ .begin id .read :: after) :
    ∃ w₀, Run db before w₀ ∧ (w.phase id).Reads w₀.engine.committed ∧
      ∀ op answer, .perform id op answer ∈ after →
        answer = (w₀.engine.snapshot.perform op).1 := by
  induction h generalizing after with
  | start => exact absurd hevents.symm (by simp)
  | @step events w w' h event hstep ih =>
      rcases List.eq_nil_or_concat after with rfl | ⟨rest, last, rfl⟩
      · obtain ⟨rfl, hevent⟩ := List.append_inj' hevents rfl
        obtain rfl := (List.cons.inj hevent).1
        cases hstep with
        | begin hid hbegin =>
            obtain ⟨rfl, _, _⟩ := begin_eq_ok hbegin
            exact ⟨w, h, phase_set_self.symm ▸ .inl rfl, nofun⟩
      · rw [List.concat_eq_append, ← List.cons_append, ← List.append_assoc] at hevents
        obtain ⟨hbefore, hevent⟩ := List.append_inj' hevents rfl
        obtain rfl := (List.cons.inj hevent).1
        obtain ⟨w₀, hrun, hreads, hanswers⟩ := ih hbefore
        obtain ⟨hreads', hanswer⟩ := hstep.reads hreads
        refine ⟨w₀, hrun, hreads', fun op answer hmem => ?_⟩
        rw [List.concat_eq_append, List.mem_append, List.mem_singleton] at hmem
        exact hmem.elim (hanswers op answer) fun hlast => hanswer op answer hlast.symm

/-- The engine and its transactions without some of them. -/
structure Without (gone : Nat → Bool) (w w' : Traffic) : Prop where
  committed : w'.engine.committed = w.engine.committed
  phase : ∀ id, w'.phase id = if gone id then .unused else w.phase id

namespace Without

variable {gone : Nat → Bool} {w₁ : Traffic}

/-- A transaction that is gone moves on. -/
theorem left (h : Without gone w w₁) (hid : gone id = true)
    (hengine : engine.committed = w.engine.committed) :
    Without gone (w.set engine id phase) w₁ where
  committed := h.committed.trans hengine.symm
  phase := by
    intro id'
    by_cases heq : id' = id
    · rw [h.phase, heq, if_pos hid, if_pos hid]
    · rw [h.phase, phase_set_of_ne heq]

/-- A transaction that remains moves on in both. -/
theorem both (h : Without gone w w₁) (hid : gone id = false) {engine₁ : Engine}
    (hengine : engine₁.committed = engine.committed) :
    Without gone (w.set engine id phase) (w₁.set engine₁ id phase) where
  committed := hengine
  phase := by
    intro id'
    by_cases heq : id' = id
    · simp [heq, hid]
    · rw [phase_set_of_ne heq, phase_set_of_ne heq, h.phase]

/-- The lock is free without some transactions if it is free with them. -/
theorem begin (h : Without gone w w₁) (hexclusive : w.Exclusive) (hexclusive₁ : w₁.Exclusive)
    {mode : Mode} {t : Transaction} (hbegin : w.engine.begin mode = .ok (t, engine)) :
    ∃ engine₁, w₁.engine.begin mode = .ok (t, engine₁) ∧
      engine₁.committed = engine.committed := by
  obtain ⟨rfl, hengine, ⟨rfl, _⟩ | ⟨rfl, hfree, _⟩⟩ := begin_eq_ok hbegin
  · refine ⟨w₁.engine, ?_, h.committed.trans hengine.symm⟩
    rw [← h.committed]
    rfl
  · have hfree₁ : w₁.engine.locked = false := by
      rw [← Bool.not_eq_true, hexclusive₁.locked_iff]
      rintro ⟨id, hwrites⟩
      rw [h.phase] at hwrites
      split at hwrites
      · exact hwrites
      · rw [hexclusive.locked_iff.2 ⟨id, hwrites⟩] at hfree
        cases hfree
    refine ⟨{ w₁.engine with locked := true }, ?_, h.committed.trans hengine.symm⟩
    rw [Engine.begin, if_neg (by simp [hfree₁]), ← h.committed]

end Without

/-- An event either remains and takes place without these transactions too, or makes no difference
to them. -/
theorem Step.without {gone : Nat → Bool} {w₁ : Traffic} (hstep : Step w event w')
    (h : Without gone w w₁) (hexclusive : w.Exclusive) (hexclusive₁ : w₁.Exclusive)
    (hcommit : ∀ id mode, event = .commit id mode → gone id = false) :
    ∃ w₁', Without gone w' w₁' ∧
      if event.remains gone then Step w₁ event w₁' else w₁' = w₁ := by
  have hphase : ∀ {id}, gone id = false → w₁.phase id = w.phase id := by
    intro id hid
    rw [h.phase, hid]
    rfl
  cases hstep with
  | @begin id mode t engine hid hbegin =>
      cases hgone : gone id with
      | true => exact ⟨w₁, h.left hgone (begin_eq_ok hbegin).2.1, by simp [Event.remains, hgone]⟩
      | false =>
          obtain ⟨engine₁, hbegin₁, hengine⟩ := h.begin hexclusive hexclusive₁ hbegin
          refine ⟨_, h.both hgone hengine, ?_⟩
          rw [if_pos (by simp [Event.remains, hgone])]
          exact .begin ((hphase hgone).trans hid) hbegin₁
  | refuse hbegin => exact ⟨w₁, h, rfl⟩
  | @perform id t hid op =>
      cases hgone : gone id with
      | true => exact ⟨w₁, h.left hgone rfl, by simp [Event.remains, hgone]⟩
      | false =>
          cases hok : (t.perform op).1.isOk with
          | true =>
              refine ⟨_, h.both hgone h.committed, ?_⟩
              rw [if_pos (by simp [Event.remains, hgone, hok])]
              exact .perform ((hphase hgone).trans hid) op
          | false =>
              refine ⟨w₁, ?_, by simp [Event.remains, hok]⟩
              have hsame : w.set w.engine id (.opened (t.perform op).2) = w := by
                rw [Transaction.perform_of_error hok, ← hid, set, Function.update_eq_self]
              rwa [hsame]
  | @commit id t hid =>
      have hgone := hcommit id t.mode rfl
      refine ⟨w₁.set (w₁.engine.commit t) id .closed, h.both hgone ?_, ?_⟩
      · rw [Engine.commit, Engine.commit]
        cases t.mode with
        | read => exact h.committed
        | readWrite => rfl
      · rw [if_pos (by simp [Event.remains, hgone])]
        exact .commit ((hphase hgone).trans hid)
  | @drop id t hid =>
      cases hgone : gone id with
      | true => exact ⟨w₁, h.left hgone (Engine.committed_drop _ t), by simp [Event.remains, hgone]⟩
      | false =>
          refine ⟨w₁.set (w₁.engine.drop t) id .closed, h.both hgone ?_, ?_⟩
          · rw [Engine.committed_drop, Engine.committed_drop, h.committed]
          · rw [if_pos (by simp [Event.remains, hgone])]
            exact .drop ((hphase hgone).trans hid)

/-- Transactions that were not committed, refusals and failed operations can be taken out of a
run: what is committed and where the other transactions stand is the same. -/
theorem Run.without (h : Run db events w) {gone : Nat → Bool}
    (hgone : ∀ id mode, gone id = true → .commit id mode ∉ events) :
    ∃ w', Run db (events.filter (Event.remains gone)) w' ∧ Without gone w w' := by
  induction h with
  | start => exact ⟨_, .start, rfl, fun id => (ite_self _).symm⟩
  | @step events w w' h event hstep ih =>
      obtain ⟨w₁, hrun, hwithout⟩ := ih fun id mode hid hmem =>
        hgone id mode hid (List.mem_append_left _ hmem)
      obtain ⟨w₁', hwithout', hnext⟩ := hstep.without hwithout h.exclusive hrun.exclusive <| by
        rintro id mode rfl
        rw [← Bool.not_eq_true]
        exact fun hid => hgone id mode hid (by simp)
      refine ⟨w₁', ?_, hwithout'⟩
      rw [List.filter_append]
      split at hnext
      · next hremains =>
          rw [List.filter_cons_of_pos hremains]
          exact hrun.step _ hnext
      · next hremains =>
          rw [List.filter_cons_of_neg hremains, List.filter_nil, List.append_nil, hnext]
          exact hrun

/-- The transactions of a run might have run one after another. -/
structure Serializable (db : Database) (events : List Event) (w : Traffic) : Prop where
  /-- What is committed, and every answer of a committed transaction, is that of the committed
  transactions one after another. -/
  history : Serializes db events w
  /-- A read transaction answers from the trees that were committed when it began. -/
  snapshots : ∀ before id after, events = before ++ .begin id .read :: after →
    ∃ w₀, Run db before w₀ ∧ ∀ op answer, .perform id op answer ∈ after →
      answer = (w₀.engine.snapshot.perform op).1
  /-- The run takes place without transactions that are not committed, and without operations that
  fail, and commits the same. -/
  traceless : ∀ gone : Nat → Bool, (∀ id mode, gone id = true → .commit id mode ∉ events) →
    ∃ w', Run db (events.filter (Event.remains gone)) w' ∧ Without gone w w'
  /-- No second transaction that may write is admitted, and a first one always is. -/
  exclusive : w.engine.begin .readWrite = .error (.engine .busy) ↔ ∃ id, (w.phase id).Writes

/-- Transactions side by side are serializable, in whatever order they begin, work and end. -/
theorem Run.serializable (h : Run db events w) : Serializable db events w where
  history := h.recounts.serializes
  snapshots := by
    intro before id after hevents
    obtain ⟨w₀, hrun, _, hanswers⟩ := h.reads hevents
    exact ⟨w₀, hrun, hanswers⟩
  traceless := fun gone hgone => h.without hgone
  exclusive := by
    rw [← h.exclusive.locked_iff, Engine.begin]
    cases w.engine.locked with
    | true => exact iff_of_true rfl rfl
    | false => exact iff_of_false nofun Bool.false_ne_true

/-- A reader that began before the first commit does not see the tree that it created; a second
writer is refused, a later one is dropped, and the last one finds what the first one put. -/
theorem serializable_of_overlap : ∃ events w, Run .empty events w ∧
    committed events = [0, 3] ∧
    .perform 1 (.get "tree" [1]) (.error (.engine (.treeNotFound "tree"))) ∈ events ∧
    .refuse .readWrite (.engine .busy) ∈ events ∧ .drop 2 ∈ events ∧
    Serializable .empty events w := by
  have hrun : Run .empty _ _ := .start
  have hrun := hrun.step (.begin 0 .readWrite) (.begin rfl rfl)
  have hrun := hrun.step (.perform 0 (.createTree "tree" .plain) _) (.perform rfl _)
  have hrun := hrun.step (.begin 1 .read) (.begin rfl rfl)
  have hrun := hrun.step (.refuse .readWrite _) (.refuse rfl)
  have hrun := hrun.step (.perform 0 (.put "tree" [1] [2]) _) (.perform rfl _)
  have hrun := hrun.step (.perform 0 (.increment "tree" [1] 5) _) (.perform rfl _)
  have hrun := hrun.step (.commit 0 _) (.commit rfl)
  have hrun := hrun.step (.perform 1 (.get "tree" [1]) _) (.perform rfl _)
  have hrun := hrun.step (.begin 2 .readWrite) (.begin rfl rfl)
  have hrun := hrun.step (.perform 2 (.delete "tree" [1]) _) (.perform rfl _)
  have hrun := hrun.step (.drop 2) (.drop rfl)
  have hrun := hrun.step (.begin 3 .readWrite) (.begin rfl rfl)
  have hrun := hrun.step (.perform 3 (.get "tree" [1]) _) (.perform rfl _)
  have hrun := hrun.step (.commit 3 _) (.commit rfl)
  exact ⟨_, _, hrun, rfl, List.mem_of_getElem? (i := 7) rfl, List.mem_of_getElem? (i := 3) rfl,
    List.mem_of_getElem? (i := 10) rfl, hrun.serializable⟩

end Traffic

end CounterMesh
