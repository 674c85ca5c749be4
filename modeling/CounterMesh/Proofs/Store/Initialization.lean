import CounterMesh.Proofs.Engine.Serial
import CounterMesh.Proofs.Store.Indexes
import CounterMesh.Proofs.Store.Saved

/-!
# Opening on any content

An engine may hold anything: trees of the wrong kind, a foreign format header, an
id or sequences of the wrong width. An opening works in a transaction, which it
drops when one of its steps fails, together with the trees that were created and
the entries that were written before. When it succeeds, it has added what was
missing and has changed nothing else, and from then on every opening finds all
that it needs.
-/

namespace CounterMesh

namespace Opening

/-- A step of an opening in its transaction. -/
def step {α : Type} (f : Transaction → Except Error (α × Transaction)) :
    EStateM Error Transaction α := do
  match f (← get) with
  | .ok (a, t) =>
    set t
    return a
  | .error e => throw e

/-- What an opening does in its transaction. It leaves what its steps have done, also when one of
them fails. -/
def prepare (id : ServerId) : EStateM Error Transaction (ServerId × CounterId × Etag) := do
  Layout.trees.forM fun tree => step fun t => return ((), ← t.createTree tree.1 tree.2)
  step fun t => return ((), ← checkFormat t)
  let serverId ← step fun t => identify t id
  let lastCounterId ← step fun t => return (← Index.lastCounterId t, t)
  let lastEtag ← step fun t => return (← Index.lastEtag t, t)
  return (serverId, lastCounterId, lastEtag)

/-- The store that is made of what an opening has found. -/
def made (opening : Opening) (found : ServerId × CounterId × Etag) (engine : Engine) : Store where
  node :=
    { serverId := found.1
      lastCounterId := found.2.1
      lastEtag := found.2.2
      config := opening.config
      clock := opening.clock
      signal := opening.signal
      file := opening.file }
  engine := engine

/-- Opens a store on an engine, which is left as it is after the opening. The transaction of an
opening that fails is dropped with all that was done in it. -/
def openOn (opening : Opening) : EStateM Error Engine Store := do
  let engine ← get
  match opening.config.validate with
  | .error e => throw e
  | .ok _ =>
    if opening.requested = some .nil then throw (.counter (.invalidArgument .reservedServerId))
    match engine.begin .readWrite with
    | .error e => throw e
    | .ok (t, engine) =>
      set engine
      match (prepare (opening.requested.getD opening.fresh)).run t with
      | .error e t =>
        set (engine.drop t)
        throw e
      | .ok found t =>
        set (engine.commit t)
        return opening.made found (engine.commit t)

/-- The operation does what the function says. Whether it answers or fails, it leaves a transaction
of the same mode. -/
structure Agrees {α : Type} (op : EStateM Error Transaction α)
    (f : Transaction → Except Error (α × Transaction)) : Prop where
  returns : ∀ {t a t'}, f t = .ok (a, t') →
    Returns op t fun a' t'' => a' = a ∧ t'' = t' ∧ t''.mode = t.mode
  fails : ∀ {t e}, f t = .error e → Fails op t e fun t' => t'.mode = t.mode

namespace Agrees

variable {α β : Type} {op : EStateM Error Transaction α} {next : α → EStateM Error Transaction β}
variable {f : Transaction → Except Error (α × Transaction)}
variable {g : α → Transaction → Except Error (β × Transaction)}

theorem step (hmode : ∀ {t a t'}, f t = .ok (a, t') → t'.mode = t.mode) : Agrees (step f) f where
  returns := by
    intro t a t' h
    refine ⟨a, t', ?_, rfl, rfl, hmode h⟩
    rw [Opening.step, EStateM.run_bind, EStateM.run_get]
    simp only [h]
    rfl
  fails := by
    intro t e h
    refine ⟨t, ?_, rfl⟩
    rw [Opening.step, EStateM.run_bind, EStateM.run_get]
    simp only [h]
    rfl

theorem pure (a : α) : Agrees (Pure.pure a) fun t => .ok (a, t) where
  returns := by
    rintro t _ _ ⟨⟩
    exact .pure ⟨rfl, rfl, rfl⟩
  fails := nofun

theorem bind (h : Agrees op f) (hnext : ∀ a, Agrees (next a) (g a)) :
    Agrees (op >>= next) fun t => f t >>= fun r => g r.1 r.2 where
  returns := by
    intro t b t' hfg
    obtain ⟨⟨a, t₁⟩, hf, hg⟩ := exists_of_bind_eq_ok hfg
    refine (h.returns hf).bind ?_
    rintro _ _ ⟨rfl, rfl, hmode⟩
    refine ((hnext _).returns hg).mono ?_
    rintro _ _ ⟨rfl, rfl, hmode'⟩
    exact ⟨rfl, rfl, hmode'.trans hmode⟩
  fails := by
    intro t e hfg
    cases hf : f t with
    | error e' =>
        rw [hf] at hfg
        cases hfg
        exact (h.fails hf).bind
    | ok r =>
        rw [hf] at hfg
        refine (h.returns hf).bind_fails ?_
        rintro _ _ ⟨rfl, rfl, hmode⟩
        obtain ⟨t', hrun, hmode'⟩ := (hnext r.1).fails hfg
        exact ⟨t', hrun, hmode'.trans hmode⟩

theorem congr {f' : Transaction → Except Error (α × Transaction)} (h : Agrees op f)
    (heq : ∀ t, f t = f' t) : Agrees op f' := funext heq ▸ h

end Agrees

variable {t t' : Transaction} {id serverId : ServerId} {db : Database}

/-- An entry of the metadata is found, or it is missing and `value` is put in its place. -/
def Supplies (t : Transaction) (key value found : Bytes) (t' : Transaction) : Prop :=
  t.get Layout.metadata key = .ok (some found) ∧ t' = t ∨
    t.get Layout.metadata key = .ok none ∧ found = value ∧
      t.put Layout.metadata key value = .ok t'

theorem supplies_checkFormat (h : checkFormat t = .ok t') :
    Supplies t Layout.formatKey Layout.formatHeader Layout.formatHeader t' := by
  obtain ⟨found?, hget, h⟩ := exists_of_bind_eq_ok h
  cases found? with
  | none => exact .inr ⟨hget, rfl, h⟩
  | some found =>
      simp only at h
      split at h
      · next hfound =>
        cases h
        exact .inl ⟨hfound ▸ hget, rfl⟩
      · cases h

theorem supplies_identify (h : identify t id = .ok (serverId, t')) :
    Supplies t Layout.serverIdKey id.bytes serverId.bytes t' := by
  obtain ⟨found?, hget, h⟩ := exists_of_bind_eq_ok h
  cases found? with
  | none =>
      obtain ⟨t₁, hput, heq⟩ := exists_of_bind_eq_ok h
      cases heq
      exact .inr ⟨hget, rfl, hput⟩
  | some found =>
      simp only at h
      split at h
      · next stored hstored =>
        cases h
        have hbytes : found = serverId.bytes := by
          rw [ServerId.ofBytes?] at hstored
          split at hstored
          · cases hstored
            rfl
          · cases hstored
        exact .inl ⟨hbytes ▸ hget, rfl⟩
      · cases h

theorem Supplies.mode {key value found : Bytes} (h : Supplies t key value found t') :
    t'.mode = t.mode := by
  rcases h with ⟨_, rfl⟩ | ⟨_, _, hput⟩
  · rfl
  · exact (Transaction.Mutates.put hput).follows.mode_eq

theorem mode_createTrees (h : createTrees t = .ok t') : t'.mode = t.mode := by
  refine relates_of_foldlM (R := fun _ t t' => t'.mode = t.mode) (fun _ => rfl)
    (fun hfirst hrest => ?_) Layout.trees h
  exact hrest.trans (Transaction.Mutates.createTree hfirst).follows.mode_eq

/-- What an opening does in its transaction, if none of its steps fails. -/
def prepared (id : ServerId) (t : Transaction) :
    Except Error ((ServerId × CounterId × Etag) × Transaction) := do
  let t ← createTrees t
  let t ← checkFormat t
  let (serverId, t) ← identify t id
  let lastCounterId ← Index.lastCounterId t
  let lastEtag ← Index.lastEtag t
  return ((serverId, lastCounterId, lastEtag), t)

theorem agrees_createTrees : Agrees
    (Layout.trees.forM fun tree => step fun t => return ((), ← t.createTree tree.1 tree.2))
    fun t => return ((), ← createTrees t) := by
  have hfold : ∀ trees : List (String × TreeKind), Agrees
      (trees.forM fun tree => step fun t => return ((), ← t.createTree tree.1 tree.2))
      fun t => return ((), ← trees.foldlM (fun t tree => t.createTree tree.1 tree.2) t) := by
    intro trees
    induction trees with
    | nil => exact .pure ()
    | cons tree rest ih =>
        refine (Agrees.bind (.step ?_) fun _ => ih).congr fun t => ?_
        · intro t _ t' h
          obtain ⟨t₁, hcreate, heq⟩ := exists_of_bind_eq_ok h
          cases heq
          exact (Transaction.Mutates.createTree hcreate).follows.mode_eq
        · rw [List.foldlM_cons]
          cases t.createTree tree.1 tree.2 <;> rfl
  exact hfold Layout.trees

theorem agrees_prepare (id : ServerId) : Agrees (prepare id) (prepared id) := by
  have hask : ∀ {α : Type} (ask : Transaction → Except Error α),
      Agrees (step fun t => return (← ask t, t)) fun t => return (← ask t, t) := by
    intro α ask
    refine .step fun h => ?_
    obtain ⟨_, _, heq⟩ := exists_of_bind_eq_ok h
    cases heq
    rfl
  have hformat : Agrees (step fun t => return ((), ← checkFormat t))
      fun t => return ((), ← checkFormat t) := by
    refine .step fun h => ?_
    obtain ⟨t₁, hcheck, heq⟩ := exists_of_bind_eq_ok h
    cases heq
    exact (supplies_checkFormat hcheck).mode
  have hid : Agrees (step fun t => identify t id) fun t => identify t id :=
    .step fun h => (supplies_identify h).mode
  refine (agrees_createTrees.bind fun _ => hformat.bind fun _ => hid.bind fun _ =>
    (hask Index.lastCounterId).bind fun _ => (hask Index.lastEtag).bind fun _ => .pure _).congr
      fun t => ?_
  rw [prepared]
  simp only [bind_assoc, pure_bind]
  rfl

theorem start_eq_prepared (opening : Opening) (engine : Engine) : opening.start engine = do
    opening.config.validate
    if opening.requested = some .nil then throw (.counter (.invalidArgument .reservedServerId))
    let (t, engine) ← engine.begin .readWrite
    let (found, t) ← prepared (opening.requested.getD opening.fresh) t
    return opening.made found (engine.commit t) := by
  simp only [start, prepared, bind_assoc, pure_bind]
  rfl

/-- What an answer makes of a state: a failure leaves it as it was. -/
def outcome {σ α : Type} (after : α → σ) (s : σ) : Except Error α → EStateM.Result Error σ α
  | .ok a => .ok a (after a)
  | .error e => .error e s

/-- A store opens on an engine as it starts on it. An opening that fails leaves the engine as it
was. -/
theorem run_openOn (opening : Opening) (engine : Engine) :
    opening.openOn.run engine = outcome Store.engine engine (opening.start engine) := by
  rw [start_eq_prepared, openOn, EStateM.run_bind, EStateM.run_get]
  cases hvalid : opening.config.validate with
  | error e => rfl
  | ok _ =>
      by_cases hnil : opening.requested = some .nil
      · simp only [if_pos hnil]
        rfl
      · simp only [if_neg hnil]
        cases hlocked : engine.locked with
        | true =>
            have hbegin : engine.begin .readWrite = .error (.engine .busy) := by
              rw [Engine.begin, if_pos hlocked]
            simp only [hbegin]
            rfl
        | false =>
            have hbegin : engine.begin .readWrite =
                .ok (⟨.readWrite, engine.committed⟩, { engine with locked := true }) := by
              rw [Engine.begin, if_neg (by simp [hlocked])]
            have hagrees := agrees_prepare (opening.requested.getD opening.fresh)
            simp only [hbegin, EStateM.run_bind, EStateM.run_set]
            cases hprepared : prepared (opening.requested.getD opening.fresh)
                ⟨.readWrite, engine.committed⟩ with
            | ok r =>
                obtain ⟨_, _, hrun, rfl, rfl, _⟩ := hagrees.returns hprepared
                simp only [hrun, bind, Except.bind, hprepared]
                rfl
            | error e =>
                obtain ⟨t, hrun, hmode⟩ := hagrees.fails hprepared
                have hdrop : Engine.drop { engine with locked := true } t = engine := by
                  rw [Engine.drop, hmode]
                  simp only [← hlocked]
                simp only [hrun, hdrop, bind, Except.bind, hprepared]
                rfl

/-- These trees are created without entries where they are missing, and nothing else changes. -/
structure Completes (trees : List (String × TreeKind)) (db db' : Database) : Prop where
  kind : ∀ tree ∈ trees, ∃ contents, db'.get? tree.1 = some contents ∧ contents.kind = tree.2
  kept : ∀ {name contents}, db.get? name = some contents → db'.get? name = some contents
  created : ∀ {name contents}, db'.get? name = some contents → db.get? name = some contents ∨
    db.get? name = none ∧ ∃ kind, (name, kind) ∈ trees ∧ contents = .empty kind

theorem Completes.refl (db : Database) : Completes [] db db := ⟨nofun, id, .inl⟩

theorem Completes.cons {tree : String × TreeKind} {trees : List (String × TreeKind)}
    {db₁ db' : Database} (h : Completes [tree] db db₁) (h' : Completes trees db₁ db') :
    Completes (tree :: trees) db db' where
  kind := by
    rw [List.forall_mem_cons]
    refine ⟨?_, h'.kind⟩
    obtain ⟨contents, hget, hkind⟩ := h.kind tree List.mem_cons_self
    exact ⟨contents, h'.kept hget, hkind⟩
  kept := fun hget => h'.kept (h.kept hget)
  created := by
    intro name contents hget
    rcases h'.created hget with hget₁ | ⟨hnone₁, kind, hmem, rfl⟩
    · rcases h.created hget₁ with hget | ⟨hnone, kind, hmem, rfl⟩
      · exact .inl hget
      · exact .inr ⟨hnone, kind, List.mem_cons.2 (.inl (List.mem_singleton.1 hmem)), rfl⟩
    · refine .inr ⟨?_, kind, .tail _ hmem, rfl⟩
      rw [Option.eq_none_iff_forall_ne_some]
      intro contents hget
      rw [h.kept hget] at hnone₁
      cases hnone₁

theorem completes_createTree {name : String} {kind : TreeKind}
    (h : t.createTree name kind = .ok t') : Completes [(name, kind)] t.trees t'.trees := by
  obtain ⟨_, hget, rfl⟩ | ⟨⟨contents, hget, hkind⟩, rfl⟩ := Transaction.createTree_cases h
  · have hcreated : ∀ name', (t.setTree name (.empty kind)).trees.get? name' =
        if name' = name then some (.empty kind) else t.trees.get? name' := by
      intro name'
      split
      · next heq =>
        rw [heq]
        exact OrdMap.get?_insert_self _ _ _
      · next hne => exact OrdMap.get?_insert_of_ne _ _ hne
    constructor
    case kind =>
      rintro tree htree
      obtain rfl := List.mem_singleton.1 htree
      exact ⟨_, by rw [hcreated, if_pos rfl], Tree.kind_empty kind⟩
    case kept =>
      intro name' contents hget'
      have hne : name' ≠ name := by
        rintro rfl
        rw [hget] at hget'
        cases hget'
      rw [hcreated, if_neg hne, hget']
    case created =>
      intro name' contents hget'
      rw [hcreated] at hget'
      split at hget'
      · next heq =>
        cases hget'
        exact .inr ⟨heq ▸ hget, kind, List.mem_singleton.2 (heq ▸ rfl), rfl⟩
      · exact .inl hget'
  · refine ⟨fun tree htree => ?_, id, .inl⟩
    obtain rfl := List.mem_singleton.1 htree
    exact ⟨contents, hget, hkind⟩

theorem completes_createTrees (h : createTrees t = .ok t') :
    Completes Layout.trees t.trees t'.trees :=
  relates_of_foldlM (R := fun trees t t' => Completes trees t.trees t'.trees)
    (fun _ => .refl _) (fun hfirst hrest => (completes_createTree hfirst).cons hrest)
    Layout.trees h

theorem Completes.get?_iff {trees : List (String × TreeKind)} {db' : Database}
    (h : Completes trees db db') (name : String) (contents : Tree) :
    db'.get? name = some contents ↔ db.get? name = some contents ∨
      db.get? name = none ∧ ∃ kind, (name, kind) ∈ trees ∧ contents = .empty kind := by
  refine ⟨h.created, ?_⟩
  rintro (hget | ⟨hnone, kind, hmem, rfl⟩)
  · exact h.kept hget
  · obtain ⟨contents, hget, hkind⟩ := h.kind (name, kind) hmem
    rcases h.created hget with hget' | ⟨_, kind', _, rfl⟩
    · rw [hnone] at hget'
      cases hget'
    · rw [Tree.kind_empty] at hkind
      obtain rfl : kind' = kind := hkind
      exact hget

section Metadata

variable {entries : PlainTree}

theorem get_of_metadata (h : t.trees.get? Layout.metadata = some (.plain entries)) (key : Bytes) :
    t.get Layout.metadata key = .ok (entries.get? key) := by
  rw [Transaction.get, Transaction.plain, Transaction.tree, h]
  rfl

/-- The metadata has an entry more, unless the entry was found. -/
theorem Supplies.metadata {key value found : Bytes} (h : Supplies t key value found t')
    (hget : t.trees.get? Layout.metadata = some (.plain entries)) :
    ∃ entries' : PlainTree, t'.trees.get? Layout.metadata = some (.plain entries') ∧
      (∀ k, entries'.get? k = (entries.get? k).or (if k = key then some value else none)) ∧
      entries'.get? key = some found ∧
      ∀ name, name ≠ Layout.metadata → t'.trees.get? name = t.trees.get? name := by
  rcases h with ⟨hfound, rfl⟩ | ⟨hnone, rfl, hput⟩
  · rw [get_of_metadata hget, Except.ok.injEq] at hfound
    refine ⟨entries, hget, fun k => ?_, hfound, fun _ _ => rfl⟩
    split
    · next heq => rw [heq, hfound, Option.some_or]
    · rw [Option.or_none]
  · rw [get_of_metadata hget, Except.ok.injEq] at hnone
    obtain ⟨_, _, hput⟩ := exists_of_bind_eq_ok hput
    have hplain : t.plain Layout.metadata = .ok entries := by
      rw [Transaction.plain, Transaction.tree, hget]
      rfl
    rw [hplain] at hput
    cases hput
    refine ⟨entries.insert key found, OrdMap.get?_insert_self _ _ _, fun k => ?_,
      OrdMap.get?_insert_self _ _ _, fun name hne => OrdMap.get?_insert_of_ne _ _ hne⟩
    split
    · next heq => rw [heq, hnone, OrdMap.get?_insert_self, Option.none_or]
    · next hne => rw [OrdMap.get?_insert_of_ne _ _ hne, Option.or_none]

end Metadata

/-- The entries of the metadata that an opening puts where they are missing. -/
def addition (id : ServerId) (key : Bytes) : Option Bytes :=
  if key = Layout.formatKey then some Layout.formatHeader
  else if key = Layout.serverIdKey then some id.bytes
  else none

/-- What an opening that takes `id` for a store without an id makes of a content: a store with the
id `serverId`. -/
structure Initializes (id serverId : ServerId) (db db' : Database) : Prop where
  complete : Complete db'
  /-- Beside the metadata, all trees are as they were, or are created without entries. -/
  trees : ∀ name contents, name ≠ Layout.metadata → (db'.get? name = some contents ↔
    db.get? name = some contents ∨
      db.get? name = none ∧ ∃ kind, (name, kind) ∈ Layout.trees ∧ contents = .empty kind)
  /-- In the metadata, every entry is as it was, and the header and the id are added if they were
  missing. -/
  metadata : ∃ entries entries' : PlainTree,
    (db.get? Layout.metadata = some (.plain entries) ∨
      db.get? Layout.metadata = none ∧ entries = .empty) ∧
    db'.get? Layout.metadata = some (.plain entries') ∧
    (∀ key, entries'.get? key = (entries.get? key).or (addition id key)) ∧
    entries'.get? Layout.formatKey = some Layout.formatHeader ∧
    entries'.get? Layout.serverIdKey = some serverId.bytes

variable {opening again : Opening} {store : Store}

theorem Steps.initializes {t₁ t₂ t₃ : Transaction} (h : Steps opening db store t₁ t₂ t₃) :
    Initializes (opening.requested.getD opening.fresh) store.node.serverId db t₃.trees := by
  have hcreate := completes_createTrees h.create
  obtain ⟨contents, hget, hkind⟩ := hcreate.kind (Layout.metadata, .plain) List.mem_cons_self
  cases contents with
  | multi entries => cases hkind
  | plain entries =>
      obtain ⟨entries₂, hget₂, hadded₂, hformat₂, hother₂⟩ :=
        (supplies_checkFormat h.format).metadata hget
      obtain ⟨entries₃, hget₃, hadded₃, hid₃, hother₃⟩ :=
        (supplies_identify h.identify).metadata hget₂
      have hother : ∀ name, name ≠ Layout.metadata → t₃.trees.get? name = t₁.trees.get? name :=
        fun name hne => (hother₃ name hne).trans (hother₂ name hne)
      constructor
      case complete =>
        have hplain : ∀ tree ∈ Layout.trees, tree.1 = Layout.metadata → tree.2 = .plain := by
          decide
        intro tree htree
        by_cases hmetadata : tree.1 = Layout.metadata
        · rw [hmetadata, hplain tree htree hmetadata]
          exact ⟨_, hget₃, rfl⟩
        · rw [hother _ hmetadata]
          exact hcreate.kind tree htree
      case trees =>
        intro name contents hne
        rw [hother _ hne]
        exact hcreate.get?_iff name contents
      case metadata =>
        refine ⟨entries, entries₃, ?_, hget₃, fun key => ?_, ?_, hid₃⟩
        · rcases hcreate.created hget with hfound | ⟨hnone, kind, _, hempty⟩
          · exact .inl hfound
          · cases kind with
            | plain => exact .inr ⟨hnone, Tree.plain.inj hempty⟩
            | multi => cases hempty
        · rw [hadded₃, hadded₂, Option.or_assoc, addition]
          split
          · rw [Option.some_or]
          · rw [Option.none_or]
        · rw [hadded₃, hformat₂, Option.some_or]

theorem Steps.mode {t₁ t₂ t₃ : Transaction} (h : Steps opening db store t₁ t₂ t₃) :
    t₃.mode = .readWrite :=
  (supplies_identify h.identify).mode.trans
    ((supplies_checkFormat h.format).mode.trans (mode_createTrees h.create))

/-- On the trees that an opening has left, every valid opening finds the same store. -/
theorem Steps.start_engine_eq {t₁ t₂ t₃ : Transaction} (h : Steps opening db store t₁ t₂ t₃)
    (hvalid : again.config.validate = .ok ()) (hrequested : again.requested ≠ some .nil) :
    again.start store.engine = .ok (again.made
      (store.node.serverId, store.node.lastCounterId, store.node.lastEtag) store.engine) := by
  obtain ⟨mode, trees⟩ := t₃
  obtain rfl : mode = .readWrite := h.mode
  obtain ⟨hcomplete, _, _, entries, _, hget, _, hformat, hid⟩ := h.initializes
  have hengine : store.engine = .ofDatabase trees := h.engine
  have hcreate : createTrees ⟨.readWrite, trees⟩ = .ok ⟨.readWrite, trees⟩ :=
    createTrees_of_complete rfl hcomplete
  have hfound : ∀ key, Transaction.get ⟨.readWrite, trees⟩ Layout.metadata key =
    .ok (entries.get? key) := get_of_metadata hget
  have hcheck : checkFormat ⟨.readWrite, trees⟩ = .ok ⟨.readWrite, trees⟩ :=
    checkFormat_of_get ((hfound _).trans (congrArg Except.ok hformat))
  have hidentify : Opening.identify ⟨.readWrite, trees⟩ (again.requested.getD again.fresh) =
      .ok (store.node.serverId, ⟨.readWrite, trees⟩) :=
    identify_of_get ((hfound _).trans (congrArg Except.ok hid)) _
  rw [hengine]
  exact start_eq hvalid hrequested hcreate hcheck hidentify h.lastCounterId h.lastEtag

/-- A store opens on an engine on which no transaction may write. -/
theorem eq_ofDatabase_of_start {engine : Engine} (h : opening.start engine = .ok store) :
    engine = .ofDatabase engine.committed := by
  obtain ⟨hvalid, hrequested⟩ := valid_of_start h
  rw [start, hvalid, if_neg hrequested] at h
  obtain ⟨_, _, h⟩ := exists_of_bind_eq_ok h
  obtain ⟨_, hbegin, _⟩ := exists_of_bind_eq_ok h
  rw [Engine.begin] at hbegin
  cases hlocked : engine.locked with
  | true =>
      rw [if_pos hlocked] at hbegin
      cases hbegin
  | false => rw [Engine.ofDatabase, ← hlocked]

/-- Whatever an engine holds and however a store is to be opened on it: an opening that fails leaves
the engine as it was; one that succeeds has added to its content what was missing, and every valid
opening after it leaves the engine as it is and finds the same id and the same sequences. -/
theorem opens_atomically (opening : Opening) (engine : Engine) :
    (∃ e, opening.start engine = .error e ∧ opening.openOn.run engine = .error e engine) ∨
    ∃ store, opening.start engine = .ok store ∧
      opening.openOn.run engine = .ok store store.engine ∧
      Initializes (opening.requested.getD opening.fresh) store.node.serverId engine.committed
        store.engine.committed ∧
      ∀ again : Opening, again.config.validate = .ok () → again.requested ≠ some .nil →
        ∃ store', again.start store.engine = .ok store' ∧
          again.openOn.run store.engine = .ok store' store.engine ∧
          store'.node.serverId = store.node.serverId ∧
          store'.node.lastEtag = store.node.lastEtag ∧
          store'.node.lastCounterId = store.node.lastCounterId := by
  have hrun := run_openOn opening engine
  cases hstart : opening.start engine with
  | error e =>
      rw [hstart] at hrun
      exact .inl ⟨e, rfl, hrun⟩
  | ok store =>
      rw [hstart] at hrun
      refine .inr ⟨store, rfl, hrun, ?_⟩
      have hstart' := hstart
      rw [eq_ofDatabase_of_start hstart] at hstart'
      obtain ⟨t₁, t₂, t₃, hsteps⟩ := exists_of_start hstart'
      have hcommitted : store.engine.committed = t₃.trees := by
        rw [hsteps.engine, Engine.commit, hsteps.mode]
      rw [hcommitted]
      refine ⟨hsteps.initializes, fun again hvalid hrequested => ?_⟩
      have hagain := hsteps.start_engine_eq hvalid hrequested
      have hrun' := run_openOn again store.engine
      rw [hagain] at hrun'
      exact ⟨_, hagain, hrun', rfl, rfl, rfl⟩

/-- A content with an id and an etag, without a format header, and with a tree that no store has. -/
def inherited : Database :=
  OrdMap.ofList [
    (Layout.metadata, .plain (OrdMap.ofList [
      (Layout.serverIdKey, (ServerId.ofByte 9).bytes),
      (Layout.lastEtagKey, Word.big (5 : UInt64))])),
    ("other", .multi .empty)]

/-- The stored id wins over the requested ones, at the first opening and at the next. -/
theorem opens_atomically_of_inherited : ∃ store store',
    ({ requested := some (.ofByte 7), fresh := .ofByte 1 } : Opening).openOn.run
      (.ofDatabase inherited) = .ok store store.engine ∧
    Initializes (.ofByte 7) (.ofByte 9) inherited store.engine.committed ∧
    ({ requested := some (.ofByte 8), fresh := .ofByte 1 } : Opening).openOn.run store.engine =
      .ok store' store.engine ∧
    store'.node.serverId = .ofByte 9 ∧ store'.node.lastEtag = 5 := by
  have hfound : ((({ requested := some (.ofByte 7), fresh := .ofByte 1 } : Opening).start
      (.ofDatabase inherited)).toOption.map fun store =>
        (store.node.serverId, store.node.lastEtag)) = some (.ofByte 9, 5) := by decide +kernel
  rcases opens_atomically { requested := some (.ofByte 7), fresh := .ofByte 1 }
    (.ofDatabase inherited) with ⟨e, hstart, _⟩ | ⟨store, hstart, hrun, hadded, hagain⟩
  · rw [hstart] at hfound
    cases hfound
  · rw [hstart] at hfound
    obtain ⟨hid, hetag⟩ := Prod.mk.inj (Option.some.inj hfound)
    obtain ⟨store', _, hrun', hid', hetag', _⟩ :=
      hagain { requested := some (.ofByte 8), fresh := .ofByte 1 } rfl (by decide)
    exact ⟨store, store', hrun, hid ▸ hadded, hrun', hid'.trans hid, hetag'.trans hetag⟩

/-- An opening that fails late has put the header and an id in its transaction by then. -/
example : Fails (prepare (.ofByte 7))
    ⟨.readWrite, .ofList [(Layout.metadata, .plain (.ofList [(Layout.lastEtagKey, [0])]))]⟩
    (.counter (.invalidWidth Layout.metadata 8 1))
    fun t => t.get Layout.metadata Layout.serverIdKey = .ok (some (ServerId.ofByte 7).bytes) :=
  ⟨_, rfl, rfl⟩

end Opening

end CounterMesh
