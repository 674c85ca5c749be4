import CounterMesh.OrdMap.Lookup
import CounterMesh.Proofs.Engine.Dense
import CounterMesh.Proofs.Store.Returns
import CounterMesh.Store.Write

/-!
# What operations leave alone

An operation of a writer changes entries of the layout, the sequences, the signal
and the recorded changes, each in a few places. Whatever else one looks at in a
session, an operation preserves it, whether it answers or fails. This holds on
any trees, also on damaged ones. Only a deletion and a purge read the clock, and
each of them reads it once.
-/

namespace CounterMesh

namespace Transaction

variable {name : String} {key : Bytes} {t t' : Transaction}

/-- The transactions differ in no entry but this one. -/
structure SameBut (name : String) (key : Bytes) (t t' : Transaction) : Prop where
  mode : t'.mode = t.mode
  trees : ∀ other, other ≠ name → t'.trees.get? other = t.trees.get? other
  entries : ∀ other, other ≠ key → t'.get name other = t.get name other

theorem plain_congr {other : String} (h : t'.trees.get? other = t.trees.get? other) :
    t'.plain other = t.plain other := by
  simp only [plain, tree, h]

theorem multi_congr {other : String} (h : t'.trees.get? other = t.trees.get? other) :
    t'.multi other = t.multi other := by
  simp only [multi, tree, h]

theorem get_congr_tree {other : String} (h : t'.trees.get? other = t.trees.get? other)
    (k : Bytes) : t'.get other k = t.get other k := by
  simp only [get, plain_congr h]

theorem SameBut.get_eq (h : t.SameBut name key t') {other : String} {k : Bytes}
    (hne : ¬ (other = name ∧ k = key)) : t'.get other k = t.get other k := by
  by_cases hname : other = name
  · subst hname
    exact h.entries k fun hkey => hne ⟨rfl, hkey⟩
  · exact get_congr_tree (h.trees other hname) k

@[simp] theorem tree_setTree_self (tree : Tree) : (t.setTree name tree).tree name = .ok tree := by
  simp only [Transaction.tree, setTree, OrdMap.get?_insert_self]

theorem plain_setTree_self (entries : PlainTree) :
    (t.setTree name (.plain entries)).plain name = .ok entries := by
  rw [plain, tree_setTree_self]
  rfl

theorem sameBut_setTree_plain {entries entries' : PlainTree} (hplain : t.plain name = .ok entries)
    (hentries : ∀ other, other ≠ key → entries'.get? other = entries.get? other) :
    t.SameBut name key (t.setTree name (.plain entries')) where
  mode := rfl
  trees := fun _ hne => OrdMap.get?_insert_of_ne _ _ hne
  entries := by
    intro other hne
    rw [get, get, hplain, plain, tree_setTree_self]
    exact congrArg Except.ok (hentries other hne)

theorem sameBut_setTree_multi {entries entries' : MultiTree} (hmulti : t.multi name = .ok entries) :
    t.SameBut name key (t.setTree name (.multi entries')) where
  mode := rfl
  trees := fun _ hne => OrdMap.get?_insert_of_ne _ _ hne
  entries := by
    intro other _
    obtain ⟨tree, htree, hmulti⟩ := exists_of_bind_eq_ok hmulti
    cases tree with
    | plain _ => cases hmulti
    | multi _ =>
        rw [get, get, plain, plain, htree, tree_setTree_self]
        rfl

/-- The change changes one entry and nothing else. -/
def Alters (name : String) (key : Bytes) (change : Transaction → Except Error Transaction) :
    Prop :=
  ∀ t t', change t = .ok t' → t.SameBut name key t'

theorem alters_put (key value : Bytes) : Alters name key fun t => t.put name key value := by
  intro t t' h
  obtain ⟨_, _, hplain, rfl⟩ := exists_of_change h
  exact sameBut_setTree_plain hplain fun _ hne => OrdMap.get?_insert_of_ne _ _ hne

theorem alters_delete (key : Bytes) :
    Alters name key fun t => return (← t.delete name key).2 := by
  intro t t' h
  obtain ⟨_, hdelete, h⟩ := exists_of_bind_eq_ok h
  obtain ⟨_, _, hplain, rfl⟩ := exists_of_change hdelete
  cases h
  exact sameBut_setTree_plain hplain fun _ hne => OrdMap.get?_erase_of_ne _ hne

theorem alters_multiAdd (key value : Bytes) :
    Alters name key fun t => t.multiAdd name key value := by
  intro t t' h
  obtain ⟨_, _, hmulti, rfl⟩ := exists_of_change h
  exact sameBut_setTree_multi hmulti

theorem alters_multiDelete (key value : Bytes) :
    Alters name key fun t => return (← t.multiDelete name key value).2 := by
  intro t t' h
  obtain ⟨_, hdelete, h⟩ := exists_of_bind_eq_ok h
  obtain ⟨_, _, hmulti, rfl⟩ := exists_of_change hdelete
  cases h
  exact sameBut_setTree_multi hmulti

theorem alters_increment (key : Bytes) (delta : Int64) :
    Alters name key fun t => return (← t.increment name key delta).2 := by
  intro t t' h
  obtain ⟨⟨_, _⟩, hstep, heq⟩ := exists_of_bind_eq_ok h
  cases heq
  obtain ⟨_, _, _, hplain, _, rfl⟩ := exists_of_increment hstep
  exact sameBut_setTree_plain hplain fun _ hne => OrdMap.get?_insert_of_ne _ _ hne

end Transaction

/-- The session with other trees of its writer. -/
def Session.withTransaction (s : Session) (t : Transaction) : Session :=
  { s with writer := { s.writer with transaction := t } }

namespace Write

variable {α β ν : Type} {view : Session → ν}

/-- The operation leaves what `view` shows of a session, whether it answers or fails. -/
def Preserves (view : Session → ν) (op : Write α) : Prop :=
  ∀ s, Leaves op s fun s' => view s' = view s

/-- Which slots, and whether the list of the live counters, may be changed. -/
structure Scope where
  slots : Bytes → Prop
  live : Prop

/-- All slots and the list of the live counters. -/
def Scope.all : Scope := ⟨fun _ => True, True⟩

variable {scope : Scope}

/-- The entries that writes of slots and purges change: any in the layout, except that of the
metadata they change the sequences only, and of the slots and of the live counters what the scope
allows. -/
structure Touches (scope : Scope) (name : String) (key : Bytes) : Prop where
  layout : name ∈ Layout.trees.map Prod.fst
  metadata : name = Layout.metadata → ∃ q : Sequence, key = q.key
  slots : name = Layout.counters → scope.slots key
  live : name = Layout.groupCounters → scope.live

theorem touches_of_ne {name : String} (h : name ∈ Layout.trees.map Prod.fst ∧
    name ≠ Layout.metadata ∧ name ≠ Layout.counters ∧ name ≠ Layout.groupCounters) (key : Bytes) :
    Touches scope name key :=
  ⟨h.1, fun heq => absurd heq h.2.1, fun heq => absurd heq h.2.2.1,
    fun heq => absurd heq h.2.2.2⟩

theorem touches_slot {key : Bytes} (h : scope.slots key) : Touches scope Layout.counters key :=
  ⟨by decide, fun heq => absurd heq (by decide), fun _ => h, fun heq => absurd heq (by decide)⟩

theorem touches_live {key : Bytes} (h : scope.live) : Touches scope Layout.groupCounters key :=
  ⟨by decide, fun heq => absurd heq (by decide), fun heq => absurd heq (by decide), fun _ => h⟩

theorem touches_sequence (q : Sequence) : Touches scope Layout.metadata q.key :=
  ⟨by decide, fun _ => ⟨q, rfl⟩, fun heq => absurd heq (by decide),
    fun heq => absurd heq (by decide)⟩

/-- The view shows none of these entries. -/
def Apart (scope : Scope) (view : Session → ν) : Prop :=
  ∀ (s : Session) name key t', Touches scope name key →
    s.writer.transaction.SameBut name key t' → view (s.withTransaction t') = view s

theorem apart_clock : Apart .all fun s => s.node.clock := fun _ _ _ _ _ _ => rfl

theorem apart_changes : Apart .all fun s => s.writer.changes := fun _ _ _ _ _ _ => rfl

/-- A tree that is no part of the layout. -/
theorem apart_tree {other : String} (h : other ∉ Layout.trees.map Prod.fst) :
    Apart .all fun s => s.writer.transaction.trees.get? other := by
  intro s name key t' htouches hsame
  refine hsame.trees other ?_
  rintro rfl
  exact h htouches.layout

namespace Preserves

variable {op : Write α} {next : α → Write β}

theorem bind (h : Preserves view op) (hnext : ∀ a, Preserves view (next a)) :
    Preserves view (op >>= next) :=
  fun s => (h s).bind (fun _ => id) fun a s' hs' =>
    (hnext a s').mono fun _ hs'' => hs''.trans hs'

theorem pure (a : α) : Preserves view (Pure.pure a : Write α) := fun _ => .pure rfl

theorem throw (e : Error) : Preserves view (throw e : Write α) :=
  fun _ => (fails_throw e).leaves.mono fun _ heq => congrArg view heq

/-- Nothing comes after a failure. -/
theorem throw_bind (e : Error) :
    Preserves view ((MonadExcept.throw e : Write α) >>= next) :=
  fun _ => ((fails_throw e).bind.leaves).mono fun _ heq => congrArg view heq

theorem forM {f : α → Write PUnit} (h : ∀ a, Preserves view (f a)) (list : List α) :
    Preserves view (list.forM f) := by
  induction list with
  | nil => exact .pure _
  | cons a rest ih => exact (h a).bind fun _ => ih

end Preserves

theorem preserves_query {ask : Transaction → Except Error α} : Preserves view (query ask) :=
  fun _ => (leaves_query ask).mono fun _ heq => congrArg view heq

theorem preserves_modify {change : Session → Session} (h : ∀ s, view (change s) = view s) :
    Preserves view (modify change : Write PUnit) :=
  fun s => .inl ⟨_, _, rfl, h s⟩

theorem preserves_mutate {change : Transaction → Except Error Transaction}
    (h : ∀ (s : Session) t', change s.writer.transaction = .ok t' →
      view (s.withTransaction t') = view s) : Preserves view (mutate change) := by
  intro s
  cases hchange : change s.writer.transaction with
  | error e => exact (fails_mutate hchange).leaves.mono fun _ heq => congrArg view heq
  | ok t' =>
      refine (returns_mutate hchange).leaves ?_
      rintro _ _ rfl
      exact h s t' hchange

section Trees

variable {name : String} {key : Bytes} (happart : Apart scope view)
variable (htouches : Touches scope name key)

include happart htouches

theorem preserves_alter {change : Transaction → Except Error Transaction}
    (hchange : Transaction.Alters name key change) : Preserves view (mutate change) :=
  preserves_mutate fun s t' h => happart s name key t' htouches (hchange _ _ h)

theorem preserves_put {value : Bytes} :
    Preserves view (mutate fun t => t.put name key value) :=
  preserves_alter happart htouches (Transaction.alters_put _ _)

theorem preserves_delete : Preserves view (remove fun t => t.delete name key) :=
  preserves_alter happart htouches (Transaction.alters_delete _)

theorem preserves_multiAdd {value : Bytes} :
    Preserves view (mutate fun t => t.multiAdd name key value) :=
  preserves_alter happart htouches (Transaction.alters_multiAdd _ _)

theorem preserves_multiDelete {value : Bytes} :
    Preserves view (remove fun t => t.multiDelete name key value) :=
  preserves_alter happart htouches (Transaction.alters_multiDelete _ _)

end Trees

theorem preserves_removeEtag (happart : Apart scope view) {key : Bytes} :
    Preserves view (removeEtag key) := by
  refine preserves_query.bind fun etag? => ?_
  cases etag? with
  | none => exact .pure _
  | some etag =>
      exact (preserves_delete happart (touches_of_ne (by decide) _)).bind fun _ =>
        preserves_delete happart (touches_of_ne (by decide) _)

section Purge

variable (happart : Apart .all view)

include happart

theorem preserves_forgetName {counterId : CounterId} {key group : Bytes} :
    Preserves view (forgetName counterId key group) :=
  preserves_query.bind fun _ =>
    (preserves_multiDelete happart (touches_of_ne (by decide) _)).bind fun _ =>
      preserves_delete happart (touches_of_ne (by decide) _)

theorem preserves_forgetSlot {key : Bytes} : Preserves view (forgetSlot key) :=
  (preserves_removeEtag happart).bind fun _ => preserves_delete happart (touches_slot trivial)

theorem preserves_forget {counterId : CounterId} : Preserves view (forget counterId) :=
  preserves_query.bind fun _ =>
    (Preserves.forM (fun _ => preserves_forgetName happart) _).bind fun _ =>
      preserves_query.bind fun _ => .forM (fun _ => preserves_forgetSlot happart) _

theorem preserves_purgeTombstone {date key : Bytes} : Preserves view (purgeTombstone date key) :=
  preserves_query.bind fun _ =>
    (preserves_forget happart).bind fun _ =>
      preserves_multiDelete happart (touches_of_ne (by decide) _)

/-- A purge reads the clock once, and leaves alone whatever its removals leave alone. -/
theorem leaves_purgeBatch (s : Session) : Leaves purgeBatch s fun s' =>
    view s' = view { s with node := { s.node with clock := s.node.clock.now.2 } } := by
  refine returns_config.bind_leaves ?_
  rintro _ s₁ ⟨_, rfl⟩
  refine returns_now.bind_leaves ?_
  rintro _ s₂ ⟨_, rfl⟩
  refine preserves_query.bind (fun batch => ?_) _
  exact (Preserves.forM (fun _ => preserves_purgeTombstone happart) batch).bind fun _ => .pure _

end Purge

/-- The view shows nothing that the write of a slot changes: none of the entries, no sequence and
no signal. -/
structure Aside (scope : Scope) (view : Session → ν) : Prop where
  apart : Apart scope view
  sequence : ∀ (q : Sequence) (s : Session) number,
    view { s with writer := q.move number s.writer } = view s
  signal : ∀ (s : Session) signal, view { s with node := { s.node with signal } } = view s

theorem aside_clock : Aside .all fun s => s.node.clock :=
  ⟨apart_clock, fun _ _ _ => rfl, fun _ _ => rfl⟩

theorem aside_changes : Aside .all fun s => s.writer.changes :=
  ⟨apart_changes, fun q _ _ => by cases q <;> rfl, fun _ _ => rfl⟩

/-- A counter whose slot a node writes is listed among the live ones, before its tombstone goes. -/
def listLive (group name : String) (counterId : CounterId) : Write Unit := do
  let group := Bytes.ofText group
  let name := Bytes.ofText name
  let entry := GroupEntry.bytes name counterId
  mutate fun t => t.multiAdd Layout.groupCounters group entry
  remove fun t => t.multiDelete Layout.tombstonedGroupCounters group entry
  mutate fun t => t.put Layout.counterNames (NameKey.bytes counterId name) group

theorem updateGroups_node (group name : String) (counterId : CounterId) (serverId : ServerId) :
    updateGroups group name counterId (.node serverId) =
      listLive group name counterId >>= fun _ => removeTombstone counterId := by
  simp only [updateGroups, listLive, Owner.isTombstone, Bool.false_eq_true, if_false,
    Bool.not_false, if_true, bind_assoc]

section Slots

variable {group name : String} {counterId : CounterId} {owner : Owner} {sign : Sign} {key : Bytes}

theorem preserves_checkNames : Preserves view (checkNames group name) := by
  cases hgroup : group.isEmpty <;> cases hname : name.isEmpty <;>
    simp only [checkNames, hgroup, hname, Bool.false_eq_true, if_true, if_false]
  · exact .pure _
  · exact .throw _
  · exact .throw_bind _
  · exact .throw_bind _

variable (haside : Aside scope view)

include haside

theorem preserves_signal : Preserves view signal := preserves_modify fun s => haside.signal s _

theorem preserves_next (q : Sequence) : Preserves view q.next := by
  have hget : Preserves view (get : Write Session) := fun _ => .inl ⟨_, _, rfl, rfl⟩
  refine hget.bind fun s => Preserves.bind (preserves_modify fun s' => haside.sequence q s' _)
    fun _ => ?_
  exact (preserves_put haside.apart (touches_sequence q)).bind fun _ => .pure _

theorem preserves_reassignEtag : Preserves view (reassignEtag key) := by
  have hassign : Preserves view (do
      let etag ← nextEtag
      mutate fun t => t.put Layout.etagToKey (Word.big etag) key
      mutate fun t => t.put Layout.keyToEtag key (Word.big etag)) := by
    rw [← Sequence.next_etag]
    refine (preserves_next haside .etag).bind fun etag => ?_
    exact (preserves_put haside.apart (touches_of_ne (by decide) _)).bind fun _ =>
      preserves_put haside.apart (touches_of_ne (by decide) _)
  refine preserves_query.bind fun previous? => ?_
  cases previous? with
  | none => exact hassign
  | some previous =>
      exact (preserves_delete haside.apart (touches_of_ne (by decide) _)).bind fun _ => hassign

theorem preserves_removeTombstone (hslot : scope.slots (SlotKey.tombstone counterId).bytes) :
    Preserves view (removeTombstone counterId) := by
  refine preserves_query.bind fun ticks? => ?_
  cases ticks? with
  | none => exact .pure _
  | some ticks =>
      exact (preserves_multiDelete haside.apart (touches_of_ne (by decide) _)).bind fun _ =>
        (preserves_delete haside.apart (touches_slot hslot)).bind fun _ =>
          preserves_removeEtag haside.apart

theorem preserves_listLive (hlive : scope.live) :
    Preserves view (listLive group name counterId) :=
  (preserves_multiAdd haside.apart (touches_live hlive)).bind fun _ =>
    (preserves_multiDelete haside.apart (touches_of_ne (by decide) _)).bind fun _ =>
      preserves_put haside.apart (touches_of_ne (by decide) _)

theorem preserves_updateGroups (hslot : scope.slots (SlotKey.tombstone counterId).bytes)
    (hlive : scope.live) : Preserves view (updateGroups group name counterId owner) := by
  have happart := haside.apart
  cases owner with
  | tombstone =>
      refine (preserves_multiDelete happart (touches_live hlive)).bind fun _ => ?_
      refine (preserves_multiAdd happart (touches_of_ne (by decide) _)).bind fun _ => ?_
      exact (preserves_put happart (touches_of_ne (by decide) _)).bind fun _ => .pure _
  | node serverId =>
      rw [updateGroups_node]
      exact (preserves_listLive haside hlive).bind fun _ => preserves_removeTombstone haside hslot

theorem preserves_writeSlot (hslot : scope.slots key) (write : SlotWrite) :
    Preserves view (writeSlot key write) := by
  cases write with
  | increment magnitude =>
      exact preserves_alter haside.apart (touches_slot hslot) (Transaction.alters_increment _ _)
  | overwrite value => exact preserves_put haside.apart (touches_slot hslot)
  | tombstone ticks =>
      have hdate : Preserves view (do
          mutate fun t => t.put Layout.counters key (Word.little ticks)
          mutate fun t => t.multiAdd Layout.tombstonesByDate (Word.ordered ticks) key) :=
        (preserves_put haside.apart (touches_slot hslot)).bind fun _ =>
          preserves_multiAdd haside.apart (touches_of_ne (by decide) _)
      refine preserves_query.bind fun previous? => ?_
      cases previous? with
      | none => exact hdate
      | some previous =>
          exact (preserves_multiDelete haside.apart (touches_of_ne (by decide) _)).bind
            fun _ => hdate

theorem preserves_resolve : Preserves view (resolve group name) := by
  refine preserves_query.bind fun live? => ?_
  cases live? with
  | some counterId => exact .pure _
  | none =>
      refine preserves_query.bind fun deleted? => ?_
      cases deleted? with
      | some counterId => exact .pure _
      | none =>
          rw [← Sequence.next_counterId]
          exact (preserves_next haside .counterId).bind fun _ => .pure _

end Slots

section Operations

variable {group name : String} (haside : Aside .all view)

include haside

theorem preserves_merge {owner : Owner} {sign : Sign} (write : SlotWrite) :
    Preserves view (merge group name owner sign write) :=
  (preserves_resolve haside).bind fun _ =>
    (preserves_updateGroups haside trivial trivial).bind fun _ =>
    (preserves_writeSlot haside trivial write).bind fun _ =>
      (preserves_reassignEtag haside).bind fun _ => (preserves_signal haside).bind fun _ => .pure _

variable (hchanges : ∀ (s : Session) changes,
  view { s with writer := { s.writer with changes } } = view s)

include hchanges

theorem preserves_store {delta : Int64} : Preserves view (store group name delta) := by
  refine preserves_checkNames.bind fun _ => ?_
  by_cases hdelta : delta = Int64.minValue
  · rw [if_pos hdelta]
    exact .throw_bind _
  · rw [if_neg hdelta]
    refine Preserves.bind (fun _ => .inl ⟨_, _, rfl, rfl⟩) fun _ => ?_
    refine (preserves_merge haside _).bind fun _ => ?_
    exact Preserves.bind (preserves_modify fun s => hchanges s _) fun _ => .pure _

theorem preserves_storeReplicated {serverId : ServerId} {sign : Sign} {value : Int64} :
    Preserves view (storeReplicated group name serverId sign value) := by
  have hrecord : ∀ action, Preserves view (do
      record ⟨group, name, action, serverId⟩
      return action) :=
    fun action => Preserves.bind (preserves_modify fun s => hchanges s _) fun _ => .pure _
  refine preserves_checkNames.bind fun _ => ?_
  cases Owner.ofServer serverId with
  | tombstone => exact (preserves_merge haside _).bind fun _ => hrecord _
  | node other => exact (preserves_merge haside _).bind fun _ => hrecord _

theorem preserves_resetLive : Preserves view (resetLive group name) := by
  refine preserves_query.bind fun total => ?_
  by_cases hzero : total = 0
  · rw [if_pos hzero]
    exact .pure _
  · rw [if_neg hzero]
    by_cases hleast : total = Int64.minValue
    · rw [if_pos hleast]
      exact .throw_bind _
    · rw [if_neg hleast]
      exact (preserves_store haside hchanges).bind fun _ => .pure _

theorem preserves_reset : Preserves view (reset group name) :=
  Preserves.bind (preserves_query.bind fun _ => .pure _) fun _ =>
    preserves_resetLive haside hchanges

theorem preserves_delete_counter (hclock : ∀ (s : Session) clock,
    view { s with node := { s.node with clock } } = view s) :
    Preserves view (delete group name) := by
  have hmark : Preserves view (do
      let ticks := ticksOf (← now)
      let _ ← merge group name .tombstone .positive (.tombstone ticks)
      record ⟨group, name, .delete, .nil⟩) := by
    have hnow : Preserves view now := fun s => .inl ⟨_, _, rfl, hclock s _⟩
    exact hnow.bind fun _ => (preserves_merge haside _).bind fun _ =>
      preserves_modify fun s => hchanges s _
  refine Preserves.bind (preserves_query.bind fun _ => .pure _) fun _ => ?_
  refine preserves_query.bind fun total => ?_
  by_cases hleast : total = Int64.minValue
  · rw [if_pos hleast]
    exact (preserves_store haside hchanges).bind fun _ =>
      (preserves_store haside hchanges).bind fun _ => hmark
  · rw [if_neg hleast]
    exact (preserves_resetLive haside hchanges).bind fun _ => hmark

end Operations

/-- The clock is moved by being read only. -/
abbrev PreservesClock (op : Write α) : Prop := Preserves (fun s => s.node.clock) op

theorem preservesClock_store {group name : String} (delta : Int64) :
    PreservesClock (store group name delta) :=
  preserves_store aside_clock fun _ _ => rfl

end Write

end CounterMesh
