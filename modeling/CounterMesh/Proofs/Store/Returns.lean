import CounterMesh.Store.Merge

/-!
# Runs of operations

`Returns` says that an operation on a state ends with an answer, and what holds
of the answer and of the state it leaves. The rules below take an operation
apart along its steps, so that each step is proved once, from the state before
it, and used by what it stands for. They serve the operations of a writer, whose
state is a session, and those of a store.
-/

namespace CounterMesh

variable {σ α β : Type} {s : σ}

instance decidableEqOk [DecidableEq α] : (answer : Except Error α) → (a : α) →
    Decidable (answer = .ok a)
  | .ok b, a => decidable_of_iff (b = a) (by rw [Except.ok.injEq])
  | .error _, _ => isFalse nofun

/-- The operation answers, and its answer and the state it leaves satisfy `post`. -/
def Returns (op : EStateM Error σ α) (s : σ) (post : α → σ → Prop) : Prop :=
  ∃ a s', op.run s = .ok a s' ∧ post a s'

instance Returns.decidable {op : EStateM Error σ α} {post : α → σ → Prop}
    [∀ a s', Decidable (post a s')] : Decidable (Returns op s post) :=
  match h : op.run s with
  | .ok a s' => decidable_of_iff (post a s') ⟨fun hpost => ⟨a, s', h, hpost⟩, by
      rintro ⟨a', s'', hrun, hpost⟩
      rw [h, EStateM.Result.ok.injEq] at hrun
      obtain ⟨rfl, rfl⟩ := hrun
      exact hpost⟩
  | .error e s' => isFalse (by
      rintro ⟨a, s'', hrun, _⟩
      rw [h] at hrun
      cases hrun)

/-- The operation fails with this error, and the state it leaves satisfies `post`. -/
def Fails (op : EStateM Error σ α) (s : σ) (e : Error) (post : σ → Prop) : Prop :=
  ∃ s', op.run s = .error e s' ∧ post s'

/-- The operation fails with this error and leaves the state as it was. -/
def Refuses (op : EStateM Error σ α) (s : σ) (e : Error) : Prop := op.run s = .error e s

namespace Returns

variable {op : EStateM Error σ α} {next : α → EStateM Error σ β} {post : β → σ → Prop}
variable {mid : α → σ → Prop}

theorem mono {post post' : α → σ → Prop} (h : Returns op s post)
    (himp : ∀ a s', post a s' → post' a s') : Returns op s post' := by
  obtain ⟨a, s', hrun, hpost⟩ := h
  exact ⟨a, s', hrun, himp a s' hpost⟩

theorem pure {post : α → σ → Prop} {a : α} (h : post a s) :
    Returns (Pure.pure a : EStateM Error σ α) s post := ⟨a, s, rfl, h⟩

theorem get : Returns (get : EStateM Error σ σ) s fun a s' => a = s ∧ s' = s :=
  ⟨_, _, rfl, rfl, rfl⟩

theorem modify (f : σ → σ) :
    Returns (modify f : EStateM Error σ PUnit) s fun _ s' => s' = f s := ⟨_, _, rfl, rfl⟩

/-- Steps one after another: the second starts from what the first leaves. -/
theorem bind (h : Returns op s mid) (hnext : ∀ a s', mid a s' → Returns (next a) s' post) :
    Returns (op >>= next) s post := by
  obtain ⟨a, s', hrun, hmid⟩ := h
  obtain ⟨b, s'', hrun', hpost⟩ := hnext a s' hmid
  refine ⟨b, s'', ?_, hpost⟩
  rw [EStateM.run_bind, hrun]
  exact hrun'

/-- A loop over a list keeps an invariant of what is left of the list. -/
theorem forM {f : α → EStateM Error σ PUnit} (inv : List α → σ → Prop)
    (step : ∀ a rest s, inv (a :: rest) s → Returns (f a) s fun _ s' => inv rest s') :
    ∀ (list : List α) (s : σ), inv list s →
      Returns (list.forM f) s fun _ s' => inv [] s' := by
  intro list
  induction list with
  | nil =>
      intro s hinv
      exact .pure hinv
  | cons a rest ih =>
      intro s hinv
      exact (step a rest s hinv).bind fun _ s' hinv' => ih s' hinv'

end Returns

theorem Fails.bind {op : EStateM Error σ α} {next : α → EStateM Error σ β} {e : Error}
    {post : σ → Prop} (h : Fails op s e post) : Fails (op >>= next) s e post := by
  obtain ⟨s', hrun, hpost⟩ := h
  refine ⟨s', ?_, hpost⟩
  rw [EStateM.run_bind, hrun]

theorem Returns.bind_fails {op : EStateM Error σ α} {next : α → EStateM Error σ β} {e : Error}
    {mid : α → σ → Prop} {post : σ → Prop} (h : Returns op s mid)
    (hnext : ∀ a s', mid a s' → Fails (next a) s' e post) : Fails (op >>= next) s e post := by
  obtain ⟨a, s', hrun, hmid⟩ := h
  obtain ⟨s'', hrun', hpost⟩ := hnext a s' hmid
  refine ⟨s'', ?_, hpost⟩
  rw [EStateM.run_bind, hrun]
  exact hrun'

theorem Refuses.bind {op : EStateM Error σ α} {next : α → EStateM Error σ β} {e : Error}
    (h : Refuses op s e) : Refuses (op >>= next) s e := by
  rw [Refuses, EStateM.run_bind, h]

/-- A step that changes nothing may come before a refusal. -/
theorem Returns.bind_refuses {op : EStateM Error σ α} {next : α → EStateM Error σ β} {e : Error}
    {mid : α → σ → Prop} (h : Returns op s mid)
    (hnext : ∀ a s', mid a s' → s' = s ∧ Refuses (next a) s e) : Refuses (op >>= next) s e := by
  obtain ⟨a, s', hrun, hmid⟩ := h
  obtain ⟨rfl, hrefuses⟩ := hnext a s' hmid
  rw [Refuses, EStateM.run_bind, hrun]
  exact hrefuses

theorem Refuses.fails {op : EStateM Error σ α} {e : Error} {post : σ → Prop}
    (h : Refuses op s e) (hpost : post s) : Fails op s e post := ⟨s, h, hpost⟩

/-- The operation answers, and its answer and the state it leaves satisfy `post`; or it fails, and
the state it leaves satisfies `fail`. -/
def Ends (op : EStateM Error σ α) (s : σ) (post : α → σ → Prop) (fail : σ → Prop) : Prop :=
  Returns op s post ∨ ∃ e, Fails op s e fail

/-- Whether the operation answers or fails, the state it leaves satisfies `post`. -/
def Leaves (op : EStateM Error σ α) (s : σ) (post : σ → Prop) : Prop :=
  Ends op s (fun _ => post) post

namespace Ends

variable {op : EStateM Error σ α} {next : α → EStateM Error σ β} {post : β → σ → Prop}
variable {mid : α → σ → Prop} {fail : σ → Prop}

theorem mono {mid' : α → σ → Prop} {fail' : σ → Prop} (h : Ends op s mid fail)
    (himp : ∀ a s', mid a s' → mid' a s') (hfail : ∀ s', fail s' → fail' s') :
    Ends op s mid' fail' := by
  rcases h with h | ⟨e, s', hrun, hpost⟩
  · exact .inl (h.mono himp)
  · exact .inr ⟨e, s', hrun, hfail s' hpost⟩

/-- The second step starts from what the first leaves, or does not take place. -/
theorem bind (h : Ends op s mid fail) (hnext : ∀ a s', mid a s' → Ends (next a) s' post fail) :
    Ends (op >>= next) s post fail := by
  rcases h with ⟨a, s', hrun, hmid⟩ | ⟨e, hfails⟩
  · have hbind : (op >>= next).run s = (next a).run s' := by rw [EStateM.run_bind, hrun]
    rcases hnext a s' hmid with ⟨b, s'', hrun', hpost⟩ | ⟨e, s'', hrun', hpost⟩
    · exact .inl ⟨b, s'', hbind.trans hrun', hpost⟩
    · exact .inr ⟨e, s'', hbind.trans hrun', hpost⟩
  · exact .inr ⟨e, hfails.bind⟩

/-- An operation ends in one way, of which both hold. -/
theorem and {post' : α → σ → Prop} {fail' : σ → Prop} (h : Ends op s mid fail)
    (h' : Ends op s post' fail') :
    Ends op s (fun a s' => mid a s' ∧ post' a s') fun s' => fail s' ∧ fail' s' := by
  rcases h with ⟨a, s', hrun, hmid⟩ | ⟨e, s', hrun, hfail⟩
  · rcases h' with ⟨_, _, hrun', hpost⟩ | ⟨_, _, hrun', _⟩
    · cases hrun.symm.trans hrun'
      exact .inl ⟨a, s', hrun, hmid, hpost⟩
    · cases hrun.symm.trans hrun'
  · rcases h' with ⟨_, _, hrun', _⟩ | ⟨_, _, hrun', hfail'⟩
    · cases hrun.symm.trans hrun'
    · cases hrun.symm.trans hrun'
      exact .inr ⟨e, s', hrun, hfail, hfail'⟩

end Ends

section Outcomes

variable {op : EStateM Error σ α} {next : α → EStateM Error σ β} {mid : α → σ → Prop}

theorem Returns.ends {fail : σ → Prop} (h : Returns op s mid) : Ends op s mid fail := .inl h

/-- An operation that answers ends with what holds of its answers. -/
theorem Returns.and_ends {post : α → σ → Prop} {fail : σ → Prop} (h : Returns op s mid)
    (h' : Ends op s post fail) : Returns op s fun a s' => mid a s' ∧ post a s' := by
  have hends : Ends op s mid fun _ => False := h.ends
  rcases hends.and h' with hreturns | ⟨_, _, _, hnever, _⟩
  · exact hreturns
  · exact hnever.elim

theorem Returns.bind_ends {post : β → σ → Prop} {fail : σ → Prop} (h : Returns op s mid)
    (hnext : ∀ a s', mid a s' → Ends (next a) s' post fail) : Ends (op >>= next) s post fail :=
  h.ends.bind hnext

theorem Returns.leaves {post : σ → Prop} (h : Returns op s mid)
    (himp : ∀ a s', mid a s' → post s') : Leaves op s post :=
  .inl (h.mono himp)

theorem Returns.bind_leaves {post : σ → Prop} (h : Returns op s mid)
    (hnext : ∀ a s', mid a s' → Leaves (next a) s' post) : Leaves (op >>= next) s post :=
  h.ends.bind hnext

theorem Fails.leaves {e : Error} {post : σ → Prop} (h : Fails op s e post) : Leaves op s post :=
  .inr ⟨e, h⟩

end Outcomes

namespace Leaves

variable {op : EStateM Error σ α} {next : α → EStateM Error σ β} {mid post : σ → Prop}

theorem mono (h : Leaves op s mid) (himp : ∀ s', mid s' → post s') : Leaves op s post :=
  Ends.mono h (fun _ => himp) himp

/-- An answer comes from a run. -/
theorem run (h : Leaves op s post) :
    Ends op s (fun a s' => op.run s = .ok a s' ∧ post s') post := by
  rcases h with ⟨a, s', hrun, hpost⟩ | hfails
  · exact .inl ⟨a, s', hrun, hrun, hpost⟩
  · exact .inr hfails

theorem pure {a : α} (h : post s) : Leaves (Pure.pure a : EStateM Error σ α) s post :=
  .inl (.pure h)

theorem bind (h : Leaves op s mid) (himp : ∀ s', mid s' → post s')
    (hnext : ∀ a s', mid s' → Leaves (next a) s' post) : Leaves (op >>= next) s post :=
  Ends.bind (Ends.mono h (fun _ _ => id) himp) hnext

end Leaves

/-- What an operation answers, or the error with which it fails, and the state that it leaves. -/
def attempt (op : EStateM Error σ α) (s : σ) : Except Error α × σ :=
  match op.run s with
  | .ok a s' => (.ok a, s')
  | .error e s' => (.error e, s')

/-- The state that an operation leaves, whether it answers or fails. -/
def leaving (op : EStateM Error σ α) (s : σ) : σ := (attempt op s).2

section Leaving

variable {op : EStateM Error σ α} {s' : σ}

theorem leaving_of_ok {a : α} (h : op.run s = .ok a s') : leaving op s = s' := by
  rw [leaving, attempt, h]

theorem leaving_of_error {e : Error} (h : op.run s = .error e s') : leaving op s = s' := by
  rw [leaving, attempt, h]

/-- What is made of an answer does not change the state. -/
theorem leaving_map (f : α → β) (op : EStateM Error σ α) (s : σ) :
    leaving (f <$> op) s = leaving op s := by
  rw [map_eq_pure_bind, leaving, leaving, attempt, attempt, EStateM.run_bind]
  cases op.run s <;> rfl

theorem leaving_discard (op : EStateM Error σ α) (s : σ) :
    leaving (discard op) s = leaving op s := leaving_map (fun _ => PUnit.unit) op s

theorem Leaves.leaving {post : σ → Prop} (h : Leaves op s post) : post (leaving op s) := by
  rcases h with ⟨a, s', hrun, hpost⟩ | ⟨e, s', hrun, hpost⟩
  · rwa [leaving_of_ok hrun]
  · rwa [leaving_of_error hrun]

theorem Returns.leaving {post : α → σ → Prop} (h : Returns op s post) :
    ∃ a, post a (leaving op s) := by
  obtain ⟨a, s', hrun, hpost⟩ := h
  exact ⟨a, by rwa [leaving_of_ok hrun]⟩

end Leaving

/-- The sequences of a writer, which it stores in the metadata. -/
inductive Sequence where
  | etag
  | counterId

namespace Sequence

/-- The key of the sequence in the metadata. -/
def key : Sequence → Bytes
  | etag => Layout.lastEtagKey
  | counterId => Layout.lastCounterIdKey

/-- The last number that the writer took. -/
def last : Sequence → Writer → UInt64
  | etag, writer => writer.lastEtag
  | counterId, writer => writer.lastCounterId

/-- The writer with another number as the last. -/
def move : Sequence → UInt64 → Writer → Writer
  | etag, number, writer => { writer with lastEtag := number }
  | counterId, number, writer => { writer with lastCounterId := number }

/-- Takes the next number. The sequence moves on before it is stored. -/
def next (q : Sequence) : Write UInt64 := do
  let number := q.last (← get).writer + 1
  modify fun s => { s with writer := q.move number s.writer }
  Write.mutate fun t => t.put Layout.metadata q.key (Word.big number)
  return number

theorem next_etag : next .etag = Write.nextEtag := rfl

theorem next_counterId : next .counterId = Write.nextCounterId := rfl

end Sequence

namespace Write

variable {α : Type} {s : Session}

/-- A query answers from the trees and leaves the session as it is. -/
theorem returns_query {ask : Transaction → Except Error α} {a : α}
    (h : ask s.writer.transaction = .ok a) :
    Returns (query ask) s fun a' s' => a' = a ∧ s' = s := by
  refine ⟨a, s, ?_, rfl, rfl⟩
  rw [query, EStateM.run_bind, EStateM.run_get]
  simp only [h]
  rfl

/-- A query about something else than the trees. -/
theorem returns_answer {answer : Except Error α} {a : α} (h : answer = .ok a) :
    Returns (query fun _ => answer) s fun a' s' => a' = a ∧ s' = s := returns_query h

theorem fails_query {ask : Transaction → Except Error α} {e : Error}
    (h : ask s.writer.transaction = .error e) : Fails (query ask) s e fun s' => s' = s := by
  refine ⟨s, ?_, rfl⟩
  rw [query, EStateM.run_bind, EStateM.run_get]
  simp only [h]
  rfl

/-- A query leaves the session as it is, whatever the answer. -/
theorem leaves_query (ask : Transaction → Except Error α) :
    Leaves (query ask) s fun s' => s' = s := by
  cases h : ask s.writer.transaction with
  | ok a => exact (returns_query h).leaves fun _ _ => And.right
  | error e => exact (fails_query h).leaves

theorem returns_mutate {change : Transaction → Except Error Transaction} {t : Transaction}
    (h : change s.writer.transaction = .ok t) :
    Returns (mutate change) s fun _ s' =>
      s' = { s with writer := { s.writer with transaction := t } } := by
  refine (returns_query h).bind ?_
  rintro a s' ⟨rfl, rfl⟩
  exact ⟨_, _, rfl, rfl⟩

theorem fails_mutate {change : Transaction → Except Error Transaction} {e : Error}
    (h : change s.writer.transaction = .error e) : Fails (mutate change) s e fun s' => s' = s :=
  (fails_query h).bind

theorem returns_remove {change : Transaction → Except Error (Bool × Transaction)}
    {removed : Bool} {t : Transaction} (h : change s.writer.transaction = .ok (removed, t)) :
    Returns (remove change) s fun _ s' =>
      s' = { s with writer := { s.writer with transaction := t } } := by
  apply returns_mutate
  rw [h]
  rfl

theorem returns_serverId : Returns serverId s fun id s' => id = s.node.serverId ∧ s' = s :=
  ⟨_, _, rfl, rfl, rfl⟩

theorem returns_config : Returns config s fun c s' => c = s.node.config ∧ s' = s :=
  ⟨_, _, rfl, rfl, rfl⟩

theorem returns_signal : Returns signal s fun _ s' =>
    s' = { s with node := { s.node with signal := s.node.signal.update } } :=
  .modify _

theorem returns_record (change : Change) : Returns (record change) s fun _ s' =>
    s' = { s with writer := { s.writer with changes := s.writer.changes ++ [change] } } :=
  .modify _

theorem returns_now : Returns now s fun time s' =>
    time = s.node.clock.now.1 ∧
      s' = { s with node := { s.node with clock := s.node.clock.now.2 } } :=
  ⟨_, _, rfl, rfl, rfl⟩

theorem refuses_query {ask : Transaction → Except Error α} {e : Error}
    (h : ask s.writer.transaction = .error e) : Refuses (query ask) s e := by
  obtain ⟨_, hrun, rfl⟩ := fails_query h
  exact hrun

theorem refuses_throw (e : Error) : Refuses (throw e : Write α) s e := rfl

theorem fails_throw (e : Error) : Fails (throw e : Write α) s e fun s' => s' = s :=
  ⟨s, rfl, rfl⟩

end Write

end CounterMesh
