import CounterMesh.Engine
import CounterMesh.Engine.Operation
import CounterMesh.Proofs.Engine.Dense

/-!
# Transactions one after another

An operation of a transaction gives back the transaction as it was, or, in a
read-write transaction, with one tree replaced. A read-write transaction that has
the engine for itself performs its operations one after another and is committed;
such transactions in a row are a serial history of the engine.
-/

namespace CounterMesh

/-- What an operation answers; a failure is an answer as well. -/
abbrev TreeReply := Except Error TreeAnswer

namespace Transaction

variable {t t' : Transaction}

/-- The transaction after an operation: the same, or one that may change trees, with one tree
replaced. -/
def Follows (t t' : Transaction) : Prop :=
  t' = t ∨ t.mode = .readWrite ∧ ∃ name tree, t' = t.setTree name tree

theorem Follows.mode_eq (h : t.Follows t') : t'.mode = t.mode := by
  rcases h with rfl | ⟨_, _, _, rfl⟩
  · rfl
  · rfl

/-- The changes that an operation can make. -/
inductive Mutates (t : Transaction) : Transaction → Prop where
  | createTree {name : String} {kind : TreeKind} {t' : Transaction}
      (h : t.createTree name kind = .ok t') : Mutates t t'
  | put {name : String} {key value : Bytes} {t' : Transaction}
      (h : t.put name key value = .ok t') : Mutates t t'
  | delete {name : String} {key : Bytes} {removed : Bool} {t' : Transaction}
      (h : t.delete name key = .ok (removed, t')) : Mutates t t'
  | increment {name : String} {key : Bytes} {delta next : Int64} {t' : Transaction}
      (h : t.increment name key delta = .ok (next, t')) : Mutates t t'
  | multiAdd {name : String} {key value : Bytes} {t' : Transaction}
      (h : t.multiAdd name key value = .ok t') : Mutates t t'
  | multiDelete {name : String} {key value : Bytes} {removed : Bool} {t' : Transaction}
      (h : t.multiDelete name key value = .ok (removed, t')) : Mutates t t'

theorem Mutates.follows (h : t.Mutates t') : t.Follows t' := by
  cases h with
  | put h | delete h | multiAdd h | multiDelete h =>
      obtain ⟨hmode, _, _, heq⟩ := exists_of_change h
      cases heq
      exact .inr ⟨hmode, _, _, rfl⟩
  | createTree h =>
      obtain ⟨hmode, _, rfl⟩ | ⟨_, rfl⟩ := createTree_cases h
      · exact .inr ⟨hmode, _, _, rfl⟩
      · exact .inl rfl
  | increment h =>
      obtain ⟨hmode, _, _, _, _, rfl⟩ := exists_of_increment h
      exact .inr ⟨hmode, _, _, rfl⟩

theorem Mutates.dense (h : t.Mutates t') (hdense : t.trees.Dense) : t'.trees.Dense := by
  cases h with
  | createTree h => exact keepsDense_createTree _ _ _ h hdense
  | put h => exact keepsDense_put _ _ _ _ h hdense
  | delete h => exact keepsDense_delete _ _ _ (congrArg (· >>= fun a => pure a.2) h) hdense
  | increment h => exact keepsDense_increment _ _ _ _ (congrArg (· >>= fun a => pure a.2) h) hdense
  | multiAdd h => exact keepsDense_multiAdd _ _ _ _ h hdense
  | multiDelete h =>
      exact keepsDense_multiDelete _ _ _ _ (congrArg (· >>= fun a => pure a.2) h) hdense

/-- A query is answered from the transaction as it is. -/
theorem eq_of_query {α : Type} {query : Except Error α} {wrap : α → TreeAnswer}
    {answer : TreeAnswer} (h : (do return (wrap (← query), t)) = Except.ok (answer, t')) :
    t' = t := by
  obtain ⟨_, _, h⟩ := exists_of_bind_eq_ok h
  cases h
  rfl

/-- An operation that is answered is a query or makes one of the changes. -/
theorem answer_cases {op : TreeOp} {answer : TreeAnswer} (h : t.answer op = .ok (answer, t')) :
    t' = t ∨ t.Mutates t' := by
  cases op with
  | mode =>
      cases h
      exact .inl rfl
  | treeExists tree =>
      cases h
      exact .inl rfl
  | createTree tree kind =>
      obtain ⟨_, hcreate, h⟩ := exists_of_bind_eq_ok h
      cases h
      exact .inr (.createTree hcreate)
  | put tree key value =>
      obtain ⟨_, hput, h⟩ := exists_of_bind_eq_ok h
      cases h
      exact .inr (.put hput)
  | delete tree key =>
      obtain ⟨_, hdelete, h⟩ := exists_of_bind_eq_ok h
      cases h
      exact .inr (.delete hdelete)
  | increment tree key delta =>
      obtain ⟨_, hincrement, h⟩ := exists_of_bind_eq_ok h
      cases h
      exact .inr (.increment hincrement)
  | multiAdd tree key value =>
      obtain ⟨_, hadd, h⟩ := exists_of_bind_eq_ok h
      cases h
      exact .inr (.multiAdd hadd)
  | multiDelete tree key value =>
      obtain ⟨_, hdelete, h⟩ := exists_of_bind_eq_ok h
      cases h
      exact .inr (.multiDelete hdelete)
  | _ => exact .inl (eq_of_query h)

theorem perform_cases (t : Transaction) (op : TreeOp) :
    (t.perform op).2 = t ∨ t.Mutates (t.perform op).2 := by
  rw [perform]
  split
  · next h => exact answer_cases h
  · exact .inl rfl

theorem follows_perform (t : Transaction) (op : TreeOp) : t.Follows (t.perform op).2 := by
  rcases t.perform_cases op with h | h
  · exact .inl h
  · exact h.follows

theorem dense_perform (h : t.trees.Dense) (op : TreeOp) : (t.perform op).2.trees.Dense := by
  rcases t.perform_cases op with hsame | hmutates
  · rwa [hsame]
  · exact hmutates.dense h

@[simp] theorem mode_perform (t : Transaction) (op : TreeOp) :
    (t.perform op).2.mode = t.mode := (t.follows_perform op).mode_eq

/-- An operation of a read transaction changes nothing. -/
theorem perform_read (h : t.mode = .read) (op : TreeOp) : (t.perform op).2 = t := by
  rcases t.follows_perform op with hsame | ⟨hmode, _⟩
  · exact hsame
  · rw [h] at hmode
    cases hmode

/-- An operation that fails changes nothing. -/
theorem perform_of_error {op : TreeOp} (h : (t.perform op).1.isOk = false) :
    (t.perform op).2 = t := by
  rw [perform] at h ⊢
  split
  · next heq =>
      rw [heq] at h
      cases h
  · rfl

/-- Performs operations one after another. -/
def performAll (t : Transaction) : List TreeOp → List TreeReply × Transaction
  | [] => ([], t)
  | op :: ops =>
    let (answer, t) := t.perform op
    let (answers, t) := performAll t ops
    (answer :: answers, t)

theorem performAll_concat (t : Transaction) (ops : List TreeOp) (op : TreeOp) :
    t.performAll (ops ++ [op]) =
      ((t.performAll ops).1 ++ [((t.performAll ops).2.perform op).1],
        ((t.performAll ops).2.perform op).2) := by
  induction ops generalizing t with
  | nil => rfl
  | cons first rest ih => simp [performAll, ih]

theorem mode_performAll (t : Transaction) (ops : List TreeOp) :
    (t.performAll ops).2.mode = t.mode := by
  induction ops generalizing t with
  | nil => rfl
  | cons op ops ih => exact (ih _).trans (t.mode_perform op)

end Transaction

namespace Engine

theorem committed_drop (engine : Engine) (t : Transaction) :
    (engine.drop t).committed = engine.committed := by
  rw [drop]
  cases t.mode <;> rfl

/-- A read-write transaction that has the engine for itself. -/
def transact (engine : Engine) (ops : List TreeOp) : Except Error (List TreeReply × Engine) := do
  let (t, engine) ← engine.begin .readWrite
  let (answers, t) := t.performAll ops
  return (answers, engine.commit t)

/-- Read-write transactions one after another, each of which has the engine for itself. -/
def serial (engine : Engine) :
    List (List TreeOp) → Except Error (List (List TreeReply) × Engine)
  | [] => return ([], engine)
  | ops :: rest => do
    let (answers, engine) ← engine.transact ops
    let (others, engine) ← serial engine rest
    return (answers :: others, engine)

/-- A transaction on a free engine commits what it made of the committed trees. -/
theorem transact_ofDatabase {db db' : Database} {ops : List TreeOp} {answers : List TreeReply}
    (h : (Transaction.mk .readWrite db).performAll ops = (answers, ⟨.readWrite, db'⟩)) :
    (ofDatabase db).transact ops = .ok (answers, ofDatabase db') := by
  rw [transact]
  have hbegin : (ofDatabase db).begin .readWrite = .ok (⟨.readWrite, db⟩, ⟨db, true⟩) := rfl
  simp only [hbegin, bind, Except.bind, h]
  rfl

/-- One more transaction at the end of a serial history. -/
theorem serial_concat {engine engine' engine'' : Engine} {history : List (List TreeOp)}
    {answers : List (List TreeReply)} {ops : List TreeOp} {last : List TreeReply}
    (h : engine.serial history = .ok (answers, engine'))
    (hlast : engine'.transact ops = .ok (last, engine'')) :
    engine.serial (history ++ [ops]) = .ok (answers ++ [last], engine'') := by
  induction history generalizing engine answers with
  | nil =>
      cases h
      simp only [List.nil_append, serial, bind, Except.bind, hlast]
      rfl
  | cons first rest ih =>
      obtain ⟨⟨answer, engine₁⟩, hfirst, h⟩ := exists_of_bind_eq_ok h
      obtain ⟨⟨others, engine₂⟩, hrest, h⟩ := exists_of_bind_eq_ok h
      cases h
      simp only [List.cons_append, serial, bind, Except.bind, hfirst, ih hrest]
      rfl

end Engine

end CounterMesh
