import CounterMesh.Engine
import CounterMesh.Proofs.Engine.Presents

/-!
# Dense databases

A multi tree drops a key together with its last value, so that no operation of a
transaction leaves a key without values behind.
-/

namespace CounterMesh

/-- No key of a multi tree is left without values. -/
def Database.Dense (database : Database) : Prop :=
  ∀ name tree, database.get? name = some (.multi tree) → tree.Dense

theorem Database.dense_empty : Database.Dense .empty := nofun

/-- A step of a change that succeeds. -/
theorem exists_of_bind_eq_ok {ε α β : Type} {x : Except ε α} {f : α → Except ε β} {b : β}
    (h : x >>= f = .ok b) : ∃ a, x = .ok a ∧ f a = .ok b := by
  cases x with
  | error e => cases h
  | ok a => exact ⟨a, rfl, h⟩

/-- What the steps of a fold make between its ends, if all of them succeed. -/
theorem relates_of_foldlM {ε α β : Type} {f : β → α → Except ε β} {R : List α → β → β → Prop}
    (refl : ∀ b, R [] b b)
    (step : ∀ {a rest b b₁ b'}, f b a = .ok b₁ → R rest b₁ b' → R (a :: rest) b b') :
    ∀ (list : List α) {b b' : β}, list.foldlM f b = .ok b' → R list b b' := by
  intro list
  induction list with
  | nil =>
      rintro b _ ⟨⟩
      exact refl b
  | cons a rest ih =>
      intro b b' h
      obtain ⟨b₁, hfirst, hrest⟩ := exists_of_bind_eq_ok h
      exact step hfirst (ih hrest)

theorem eq_ok_of_toOption {ε α : Type} {x : Except ε α} {a : α} (h : x.toOption = some a) :
    x = .ok a := by
  cases x with
  | error e => cases h
  | ok _ => exact congrArg _ (Option.some.inj h)

/-- A step of a change that fails, or the rest of it. -/
theorem error_of_bind {ε α β : Type} {x : Except ε α} {f : α → Except ε β} {e : ε}
    (h : x >>= f = .error e) : x = .error e ∨ ∃ a, x = .ok a ∧ f a = .error e := by
  cases x with
  | error _ =>
      cases h
      exact .inl rfl
  | ok a => exact .inr ⟨a, rfl, h⟩

namespace Transaction

variable {t t' : Transaction} {name : String}

/-- A change of a transaction that keeps its trees dense. -/
def KeepsDense (change : Transaction → Except Error Transaction) : Prop :=
  ∀ t t', change t = .ok t' → t.trees.Dense → t'.trees.Dense

theorem dense_setTree (h : t.trees.Dense) {tree : Tree}
    (htree : ∀ entries, tree = .multi entries → entries.Dense) :
    (t.setTree name tree).trees.Dense := by
  intro name' entries hget
  by_cases hname : name' = name
  · rw [setTree, hname, OrdMap.get?_insert_self] at hget
    exact htree entries (Option.some.inj hget)
  · rw [setTree, OrdMap.get?_insert_of_ne _ _ hname] at hget
    exact h name' entries hget

theorem dense_of_multi (h : t.trees.Dense) {entries : MultiTree}
    (hmulti : t.multi name = .ok entries) : entries.Dense := by
  cases hget : t.trees.get? name with
  | none =>
      rw [multi, tree, hget] at hmulti
      cases hmulti
  | some tree =>
      rw [multi, Transaction.tree, hget] at hmulti
      cases tree with
      | plain _ => cases hmulti
      | multi tree =>
          cases hmulti
          exact h name _ hget

theorem mode_of_allow {mutation : Mutation} (h : t.allow mutation = .ok ()) :
    t.mode = .readWrite := by
  cases hmode : t.mode with
  | read =>
      rw [allow, hmode] at h
      cases h
  | readWrite => rfl

/-- A change that is admitted reads a tree, and ends with what it makes of it. -/
theorem exists_of_change {α β : Type} {mutation : Mutation} {read : Except Error α}
    {result : α → β} {b : β} (h : (do t.allow mutation; return result (← read)) = Except.ok b) :
    t.mode = .readWrite ∧ ∃ a, read = .ok a ∧ result a = b := by
  obtain ⟨_, hallow, h⟩ := exists_of_bind_eq_ok h
  obtain ⟨a, hread, h⟩ := exists_of_bind_eq_ok h
  exact ⟨mode_of_allow hallow, a, hread, Except.ok.inj h⟩

/-- A tree is created where there is none; one of the kind that is there stays. -/
theorem createTree_cases {kind : TreeKind} (h : t.createTree name kind = .ok t') :
    t.mode = .readWrite ∧ t.trees.get? name = none ∧ t' = t.setTree name (.empty kind) ∨
      (∃ tree, t.trees.get? name = some tree ∧ tree.kind = kind) ∧ t' = t := by
  obtain ⟨_, hallow, h⟩ := exists_of_bind_eq_ok h
  cases hget : t.trees.get? name with
  | none =>
      rw [hget] at h
      cases h
      exact .inl ⟨mode_of_allow hallow, rfl, rfl⟩
  | some tree =>
      simp only [hget] at h
      split at h
      · next hkind =>
        cases h
        exact .inr ⟨⟨tree, rfl, hkind⟩, rfl⟩
      · cases h

/-- An increment that is admitted puts the sum in place of the number that it adds to, where a
missing number counts as zero. -/
theorem exists_of_increment {key : Bytes} {delta next : Int64}
    (h : t.increment name key delta = .ok (next, t')) :
    t.mode = .readWrite ∧ ∃ entries current, t.plain name = .ok entries ∧
      (entries.get? key = none ∧ current = 0 ∨
        ∃ bytes, entries.get? key = some bytes ∧ Word.little? bytes = some current) ∧
      t' = t.setTree name (.plain (entries.insert key (Word.little (current + delta)))) := by
  obtain ⟨_, hallow, h⟩ := exists_of_bind_eq_ok h
  obtain ⟨entries, hplain, h⟩ := exists_of_bind_eq_ok h
  refine ⟨mode_of_allow hallow, entries, ?_⟩
  cases hget : entries.get? key with
  | none =>
      simp only [hget] at h
      cases h
      exact ⟨0, hplain, .inl ⟨rfl, rfl⟩, rfl⟩
  | some bytes =>
      cases hvalue : Word.little? bytes with
      | none =>
          simp only [hget, hvalue] at h
          cases h
      | some current =>
          simp only [hget, hvalue] at h
          cases h
          exact ⟨current, hplain, .inr ⟨bytes, rfl, hvalue⟩, rfl⟩

theorem keepsDense_put (key value : Bytes) : KeepsDense fun t => t.put name key value := by
  intro t t' hput h
  obtain ⟨_, _, _, rfl⟩ := exists_of_change hput
  exact dense_setTree h nofun

theorem keepsDense_delete (key : Bytes) :
    KeepsDense fun t => return (← t.delete name key).2 := by
  intro t t' hdelete h
  obtain ⟨_, hdelete, heq⟩ := exists_of_bind_eq_ok hdelete
  obtain ⟨_, _, _, rfl⟩ := exists_of_change hdelete
  cases heq
  exact dense_setTree h nofun

theorem keepsDense_increment (key : Bytes) (delta : Int64) :
    KeepsDense fun t => return (← t.increment name key delta).2 := by
  intro t t' hincrement h
  obtain ⟨⟨_, _⟩, hstep, heq⟩ := exists_of_bind_eq_ok hincrement
  cases heq
  obtain ⟨_, _, _, _, _, rfl⟩ := exists_of_increment hstep
  exact dense_setTree h nofun

theorem keepsDense_multiAdd (key value : Bytes) :
    KeepsDense fun t => t.multiAdd name key value := by
  intro t t' hadd h
  obtain ⟨_, entries, hmulti, rfl⟩ := exists_of_change hadd
  refine dense_setTree h ?_
  rintro _ ⟨⟩
  exact MultiTree.dense_add (dense_of_multi h hmulti) key value

theorem keepsDense_multiDelete (key value : Bytes) :
    KeepsDense fun t => return (← t.multiDelete name key value).2 := by
  intro t t' hdelete h
  obtain ⟨_, hdelete, heq⟩ := exists_of_bind_eq_ok hdelete
  obtain ⟨_, entries, hmulti, rfl⟩ := exists_of_change hdelete
  cases heq
  refine dense_setTree h ?_
  rintro _ ⟨⟩
  exact MultiTree.dense_remove (dense_of_multi h hmulti) key value

theorem keepsDense_createTree (kind : TreeKind) : KeepsDense fun t => t.createTree name kind := by
  intro t t' hcreate h
  obtain ⟨_, _, rfl⟩ | ⟨_, rfl⟩ := createTree_cases hcreate
  · refine dense_setTree h ?_
    cases kind with
    | plain => nofun
    | multi =>
        rintro _ ⟨⟩
        exact nofun
  · exact h

end Transaction

namespace Engine

variable {engine : Engine} {t : Transaction}

theorem dense_commit (h : engine.committed.Dense) (ht : t.trees.Dense) :
    (engine.commit t).committed.Dense := by
  rw [commit]
  cases t.mode with
  | read => exact h
  | readWrite => exact ht

theorem dense_drop (h : engine.committed.Dense) : (engine.drop t).committed.Dense := by
  rw [drop]
  cases t.mode with
  | read => exact h
  | readWrite => exact h

end Engine

end CounterMesh
