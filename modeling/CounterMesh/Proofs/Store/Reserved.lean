import CounterMesh.Proofs.Counter.Keys
import CounterMesh.Proofs.Store.Documents
import CounterMesh.Proofs.Store.Weights

/-!
# The reserved id

The id of zeros belongs to no node: the slots under it are tombstones, and no total
counts them. A store of a node with another id writes no such slot, and of the ones
that are there it removes at most the tombstone of its own counter, whatever else the
trees hold; the total of a live counter moves by the delta. An opening refuses the
reserved id when it is requested, but takes it over from a content in which it is
recorded. On such a store no delta ever counts.
-/

namespace CounterMesh

namespace Transaction

variable {t t' : Transaction} {name : String} {key value : Bytes}

/-- Nothing changes if a value is added that is there. -/
theorem multiAdd_of_holds {tree : MultiTree} (hmulti : t.multi name = .ok tree)
    (hholds : tree.holds key value = true) (h : t.multiAdd name key value = .ok t') : t' = t := by
  obtain ⟨_, _, hmulti', rfl⟩ := exists_of_change h
  cases hmulti.symm.trans hmulti'
  rw [MultiTree.add_of_holds hholds]
  obtain ⟨found, htree, hmulti⟩ := exists_of_bind_eq_ok hmulti
  cases found with
  | plain _ => cases hmulti
  | multi _ =>
      cases hmulti
      rw [Transaction.tree] at htree
      split at htree
      · next hget =>
        cases htree
        rw [setTree, OrdMap.insert_of_get? hget]
      · cases htree

end Transaction

namespace Index

variable {t t' : Transaction} {group name : String} {counterId : CounterId}

theorem liveId?_congr (h : t'.trees.get? Layout.groupCounters = t.trees.get? Layout.groupCounters) :
    liveId? t' group name = liveId? t group name := by
  simp only [liveId?, find?, Transaction.valuesStarting, Transaction.multi_congr h]

/-- A live counter is listed under its group. -/
theorem holds_of_liveId? (h : liveId? t group name = .ok (some counterId)) :
    ∃ tree, t.multi Layout.groupCounters = .ok tree ∧ tree.holds (Bytes.ofText group)
      (GroupEntry.bytes (Bytes.ofText name) counterId) = true := by
  obtain ⟨values, hvalues, h⟩ := exists_of_bind_eq_ok h
  obtain ⟨tree, hmulti, hvalues⟩ := exists_of_bind_eq_ok hvalues
  cases hvalues
  obtain ⟨entry, hentry, hid⟩ := List.exists_of_findSome?_eq_some (Except.ok.inj h)
  obtain rfl := GroupEntry.idFor?_iff_eq_append.1 hid
  obtain ⟨⟨_, _⟩, hmem, rfl⟩ := List.mem_map.1 hentry
  rw [OrdMap.entriesStarting_eq_filter, List.mem_filter] at hmem
  exact ⟨tree, hmulti, OrdMap.contains_iff.2 ⟨_, hmem.1⟩⟩

theorem liveId?_of_liveId (h : liveId t group name = .ok counterId) :
    liveId? t group name = .ok (some counterId) := by
  obtain ⟨found, hfind, h⟩ := exists_of_bind_eq_ok h
  cases found with
  | none => cases h
  | some _ =>
      cases h
      exact hfind

/-- A total can be told only if the slots can be read. -/
theorem exists_plain_of_total {total : Int64} (h : Index.total t counterId = .ok total) :
    ∃ entries, t.plain Layout.counters = .ok entries := by
  obtain ⟨_, h, _⟩ := exists_of_bind_eq_ok h
  obtain ⟨_, h, _⟩ := exists_of_bind_eq_ok h
  obtain ⟨entries, hplain, _⟩ := exists_of_bind_eq_ok h
  exact ⟨entries, hplain⟩

end Index

/-- The sixteen bytes of the owner are zeros. -/
def SlotKey.IsReserved (key : Bytes) : Prop := (key.drop 8).take 16 = ServerId.nil.bytes

instance : DecidablePred SlotKey.IsReserved := fun key =>
  inferInstanceAs (Decidable ((key.drop 8).take 16 = ServerId.nil.bytes))

theorem SlotKey.isReserved_bytes_iff (key : SlotKey) :
    IsReserved key.bytes ↔ key.owner.server = .nil := by
  rw [IsReserved, bytes, List.append_assoc, List.drop_left' (Word.length_big _),
    List.take_left' key.owner.server.length_bytes]
  exact ⟨ServerId.ext, congrArg ServerId.bytes⟩

/-- The counter id that a write to a counter finds or allocates. -/
def Session.Resolves (s : Session) (group name : String) (counterId : CounterId) : Prop :=
  ∃ live s', (Write.resolve group name).run s = .ok (counterId, live) s'

namespace Write

variable {s s' s₁ : Session} {group name : String} {counterId : CounterId} {own : ServerId}
variable {sign : Sign} {delta magnitude total : Int64} {key : Bytes} {p : Place}

/-- Neither slots nor the list of the live counters. -/
def Scope.none : Scope := ⟨fun _ => False, False⟩

/-- All slots but this one. -/
def Scope.except (key : Bytes) : Scope := ⟨(· ≠ key), True⟩

/-- The list of the live counters and the slots. -/
def liveAndSlots (s : Session) : Option Tree × Option Tree :=
  (s.writer.transaction.trees.get? Layout.groupCounters,
    s.writer.transaction.trees.get? Layout.counters)

/-- The entry of a slot. -/
def slotEntry (key : Bytes) (s : Session) : Except Error (Option Bytes) :=
  s.writer.transaction.get Layout.counters key

theorem aside_liveAndSlots : Aside .none liveAndSlots where
  apart := by
    intro s name key t' htouches hsame
    refine Prod.ext (hsame.trees _ ?_) (hsame.trees _ ?_)
    · rintro rfl
      exact htouches.live rfl
    · rintro rfl
      exact htouches.slots rfl
  sequence := fun q _ _ => by cases q <;> rfl
  signal := fun _ _ => rfl

theorem aside_slotEntry (key : Bytes) : Aside (.except key) (slotEntry key) where
  apart := by
    intro s name k t' htouches hsame
    refine hsame.get_eq ?_
    rintro ⟨rfl, rfl⟩
    exact htouches.slots rfl rfl
  sequence := fun q _ _ => by cases q <;> rfl
  signal := fun _ _ => rfl

/-- At most the tombstone of the counter is gone. -/
structure Drops (counterId : CounterId) (s s' : Session) : Prop where
  live : (liveAndSlots s').1 = (liveAndSlots s).1
  slots : s'.writer.transaction.plain Layout.counters = s.writer.transaction.plain Layout.counters ∨
    ∃ entries, s.writer.transaction.plain Layout.counters = .ok entries ∧
      s'.writer.transaction.plain Layout.counters =
        .ok (entries.erase (Place.tombstone counterId).bytes)

/-- The slot at a place has grown. -/
structure Grows (p : Place) (magnitude : Int64) (s s' : Session) : Prop where
  live : (liveAndSlots s').1 = (liveAndSlots s).1
  slots : ∃ entries amount, s.writer.transaction.plain Layout.counters = .ok entries ∧
    Index.Amount entries p.bytes amount ∧ s'.writer.transaction.plain Layout.counters =
      .ok (entries.insert p.bytes (Word.little (amount + magnitude)))

theorem plain_of_view (h : liveAndSlots s' = liveAndSlots s) :
    s'.writer.transaction.plain Layout.counters = s.writer.transaction.plain Layout.counters :=
  Transaction.plain_congr (congrArg Prod.snd h)

theorem Drops.of_view (h : liveAndSlots s' = liveAndSlots s) : Drops counterId s s' :=
  ⟨congrArg Prod.fst h, .inl (plain_of_view h)⟩

theorem Drops.before (h : Drops counterId s₁ s') (hview : liveAndSlots s₁ = liveAndSlots s) :
    Drops counterId s s' :=
  ⟨h.live.trans (congrArg Prod.fst hview), plain_of_view hview ▸ h.slots⟩

theorem Drops.after (h : Drops counterId s s₁) (hview : liveAndSlots s' = liveAndSlots s₁) :
    Drops counterId s s' :=
  ⟨(congrArg Prod.fst hview).trans h.live, plain_of_view hview ▸ h.slots⟩

theorem Grows.after (h : Grows p magnitude s s₁) (hview : liveAndSlots s' = liveAndSlots s₁) :
    Grows p magnitude s s' :=
  ⟨(congrArg Prod.fst hview).trans h.live, plain_of_view hview ▸ h.slots⟩

theorem leaves_dropSlot (s : Session) :
    Leaves (remove fun t => t.delete Layout.counters (Place.tombstone counterId).bytes) s
      (Drops counterId s) := by
  cases hdelete : (do
    return (← s.writer.transaction.delete Layout.counters (Place.tombstone counterId).bytes).2 :
      Except Error Transaction) with
  | error e => exact (fails_mutate hdelete).leaves.mono fun _ heq => .of_view (congrArg _ heq)
  | ok t' =>
      refine (returns_mutate hdelete).leaves ?_
      rintro _ _ rfl
      have hsame := Transaction.alters_delete _ _ _ hdelete
      obtain ⟨_, hdelete, heq⟩ := exists_of_bind_eq_ok hdelete
      obtain ⟨_, entries, hplain, rfl⟩ := Transaction.exists_of_change hdelete
      cases heq
      exact ⟨hsame.trees _ (by decide), .inr ⟨entries, hplain, Transaction.plain_setTree_self _⟩⟩

/-- The removal of a tombstone touches no other slot and no list of live counters. -/
theorem leaves_removeTombstone (s : Session) :
    Leaves (removeTombstone counterId) s (Drops counterId s) := by
  refine (leaves_query _).bind (fun _ heq => .of_view (congrArg _ heq)) ?_
  rintro ticks? _ rfl
  cases ticks? with
  | none => exact .pure (.of_view rfl)
  | some ticks =>
      rw [Place.bytes_tombstone]
      refine (preserves_multiDelete aside_liveAndSlots.apart (touches_of_ne (by decide) _) _).bind
        (fun _ => .of_view) fun _ s₁ h₁ => ?_
      refine (leaves_dropSlot s₁).bind (fun _ h₂ => h₂.before h₁) fun _ s₂ h₂ => ?_
      exact (preserves_removeEtag aside_liveAndSlots.apart s₂).mono fun _ h₃ =>
        (h₂.after h₃).before h₁

theorem ends_increment (s : Session) :
    Ends (writeSlot p.bytes (.increment magnitude)) s (fun _ s' => Grows p magnitude s s')
      fun _ => True := by
  cases hincrement : (do
    return (← s.writer.transaction.increment Layout.counters p.bytes magnitude).2 :
      Except Error Transaction) with
  | error e =>
      have hfails : Fails (writeSlot p.bytes (.increment magnitude)) s e fun s' => s' = s :=
        fails_mutate hincrement
      obtain ⟨s', hrun, _⟩ := hfails
      exact .inr ⟨e, s', hrun, trivial⟩
  | ok t' =>
      refine (returns_mutate hincrement).mono ?_ |>.ends
      rintro _ _ rfl
      have hsame := Transaction.alters_increment _ _ _ _ hincrement
      obtain ⟨⟨_, _⟩, hstep, heq⟩ := exists_of_bind_eq_ok hincrement
      cases heq
      obtain ⟨_, entries, current, hplain, hamount, rfl⟩ := Transaction.exists_of_increment hstep
      exact ⟨hsame.trees _ (by decide), entries, current, hplain, hamount,
        Transaction.plain_setTree_self _⟩

/-- A live counter is listed already. -/
theorem leaves_listLive
    (hlive : Index.liveId? s.writer.transaction group name = .ok (some counterId)) :
    Leaves (listLive group name counterId) s fun s' => liveAndSlots s' = liveAndSlots s := by
  obtain ⟨tree, hmulti, hholds⟩ := Index.holds_of_liveId? hlive
  have hadd : Leaves (mutate fun t => t.multiAdd Layout.groupCounters (Bytes.ofText group)
      (GroupEntry.bytes (Bytes.ofText name) counterId)) s
        fun s' => liveAndSlots s' = liveAndSlots s := by
    cases hchange : s.writer.transaction.multiAdd Layout.groupCounters (Bytes.ofText group)
        (GroupEntry.bytes (Bytes.ofText name) counterId) with
    | error e => exact (fails_mutate hchange).leaves.mono fun _ heq => congrArg _ heq
    | ok t' =>
        refine (returns_mutate hchange).leaves ?_
        rintro _ _ rfl
        rw [Transaction.multiAdd_of_holds hmulti hholds hchange]
  refine hadd.bind (fun _ => id) fun _ s₁ h₁ => ?_
  have happart := aside_liveAndSlots.apart
  refine (preserves_multiDelete happart (touches_of_ne (by decide) _) s₁).bind
    (fun _ h => h.trans h₁) fun _ s₂ h₂ => ?_
  exact (preserves_put happart (touches_of_ne (by decide) _) s₂).mono
    fun _ h => h.trans (h₂.trans h₁)

theorem leaves_updateGroups
    (hlive : Index.liveId? s.writer.transaction group name = .ok (some counterId)) :
    Leaves (updateGroups group name counterId (.node own)) s (Drops counterId s) := by
  rw [updateGroups_node]
  refine (leaves_listLive hlive).bind (fun _ => .of_view) fun _ s₁ h₁ => ?_
  exact (leaves_removeTombstone s₁).mono fun _ h => h.before h₁

/-- The write of a slot of a node to a live counter removes at most its tombstone before the slot
grows. -/
theorem ends_merge (hlive : Index.liveId? s.writer.transaction group name = .ok (some counterId)) :
    Ends (merge group name (.node own) sign (.increment magnitude)) s
      (fun _ s' => ∃ s₁, Drops counterId s s₁ ∧ Grows ⟨counterId, own, sign⟩ magnitude s₁ s')
      fun _ => True := by
  have hresolve : Returns (resolve group name) s fun found s' =>
      found = (counterId, true) ∧ s' = s := by
    refine (returns_query hlive).bind ?_
    rintro _ _ ⟨rfl, rfl⟩
    exact .pure ⟨rfl, rfl⟩
  refine hresolve.bind_ends ?_
  rintro _ s ⟨rfl, rfl⟩
  have hkey : SlotKey.bytes ⟨counterId, .node own, sign⟩ = Place.bytes ⟨counterId, own, sign⟩ :=
    Place.bytes_slotKey counterId (.node own) sign
  refine Ends.bind (Ends.mono (leaves_updateGroups hlive) (fun _ _ => id) fun _ _ => trivial)
    fun _ s₁ h₁ => ?_
  simp only [hkey]
  refine (ends_increment s₁).bind fun _ s₂ h₂ => ?_
  have htail : Preserves liveAndSlots (do
      reassignEtag (Place.bytes ⟨counterId, own, sign⟩)
      signal
      return true) :=
    (preserves_reassignEtag aside_liveAndSlots).bind fun _ =>
      (preserves_signal aside_liveAndSlots).bind fun _ => .pure _
  exact Ends.mono (htail s₂) (fun _ _ h₃ => ⟨s₁, h₁, h₂.after h₃⟩) fun _ _ => trivial

/-- A store that is answered has merged its delta. -/
theorem ends_store (hlive : Index.liveId? s.writer.transaction group name = .ok (some counterId)) :
    Ends (store group name delta) s (fun _ s' => ∃ s₁, Drops counterId s s₁ ∧
      Grows ⟨counterId, s.node.serverId, Sign.ofDelta delta⟩ delta.abs s₁ s') fun _ => True := by
  have hnames : Preserves id (checkNames group name) := preserves_checkNames
  refine Ends.bind (Ends.mono (hnames s) (fun _ _ => id) fun _ _ => trivial) ?_
  rintro _ _ rfl
  by_cases hdelta : delta = Int64.minValue
  · rw [if_pos hdelta]
    exact .inr ⟨_, (refuses_throw _).bind.fails trivial⟩
  · rw [if_neg hdelta]
    refine returns_serverId.bind_ends ?_
    rintro _ _ ⟨rfl, rfl⟩
    refine (ends_merge hlive).bind fun existed s' hmerged => ?_
    obtain ⟨s₁, hdrops, hgrows⟩ := hmerged
    refine (returns_record _).bind_ends ?_
    rintro _ _ rfl
    exact .inl (.pure ⟨s₁, hdrops, hgrows.after rfl⟩)

theorem exists_of_store {action : ChangeAction}
    (hlive : Index.liveId? s.writer.transaction group name = .ok (some counterId))
    (hrun : (store group name delta).run s = .ok action s') : ∃ s₁, Drops counterId s s₁ ∧
      Grows ⟨counterId, s.node.serverId, Sign.ofDelta delta⟩ delta.abs s₁ s' := by
  rcases ends_store hlive with ⟨_, _, hrun', hstored⟩ | ⟨_, _, hrun', _⟩
  · cases hrun.symm.trans hrun'
    exact hstored
  · cases hrun.symm.trans hrun'

/-- What a store adds to the total of a live counter: its delta, or nothing if the node has the
reserved id. -/
theorem totalOf_store {action : ChangeAction}
    (htotal : Index.totalOf s.writer.transaction group name = .ok total)
    (hrun : (store group name delta).run s = .ok action s') :
    Index.totalOf s'.writer.transaction group name =
      .ok (total + if s.node.serverId = .nil then 0 else delta) := by
  obtain ⟨counterId, hid, htotal⟩ := exists_of_bind_eq_ok htotal
  have hlive := Index.liveId?_of_liveId hid
  obtain ⟨entries, hplain⟩ := Index.exists_plain_of_total htotal
  obtain ⟨s₁, hdrops, hgrows⟩ := exists_of_store hlive hrun
  obtain ⟨entries₁, amount, hplain₁, hamount, hplain'⟩ := hgrows.slots
  have hweighs := (Index.total_eq_ok_iff hplain).1 htotal
  have hweighs₁ : Index.Weighs entries₁ counterId total := by
    rcases hdrops.slots with hsame | ⟨_, hbefore, hafter⟩
    · cases (hsame.trans hplain).symm.trans hplain₁
      exact hweighs
    · cases hbefore.symm.trans hplain
      cases hafter.symm.trans hplain₁
      exact hweighs.erase_tombstone
  have hlive' : Index.liveId? s'.writer.transaction group name = .ok (some counterId) :=
    (Index.liveId?_congr (hgrows.live.trans hdrops.live)).trans hlive
  rw [Catalog.index_totalOf_of_liveId? hlive']
  exact (Index.total_eq_ok_iff hplain').2 (hweighs₁.increment hamount rfl)

theorem slotEntry_of_plain {entries : PlainTree}
    (h : s.writer.transaction.plain Layout.counters = .ok entries) (key : Bytes) :
    slotEntry key s = .ok (entries.get? key) := by
  rw [slotEntry, Transaction.get, h]
  rfl

/-- A node with the reserved id writes its slots under this id. -/
theorem exists_reserved_of_store {action : ChangeAction}
    (htotal : Index.totalOf s.writer.transaction group name = .ok total)
    (hrun : (store group name delta).run s = .ok action s') (hnil : s.node.serverId = .nil) :
    ∃ key value, SlotKey.IsReserved key ∧ slotEntry key s' = .ok (some value) := by
  obtain ⟨counterId, hid, _⟩ := exists_of_bind_eq_ok htotal
  obtain ⟨s₁, _, hgrows⟩ := exists_of_store (Index.liveId?_of_liveId hid) hrun
  obtain ⟨entries, amount, _, _, hplain⟩ := hgrows.slots
  refine ⟨_, Word.little (amount + delta.abs), (SlotKey.isReserved_bytes_iff _).2 ?_,
    (slotEntry_of_plain hplain _).trans (congrArg Except.ok (OrdMap.get?_insert_self _ _ _))⟩
  rw [Place.slot_owner_server]
  exact hnil

/-- At most the tombstone of the counter is gone among the slots under the reserved id. -/
def Spares (group name : String) (key : Bytes) (s s' : Session) : Prop :=
  slotEntry key s' = slotEntry key s ∨ slotEntry key s' = .ok none ∧
    ∃ counterId, s.Resolves group name counterId ∧ key = (SlotKey.tombstone counterId).bytes

theorem Drops.slotEntry_cases (h : Drops counterId s s') (key : Bytes) :
    slotEntry key s' = slotEntry key s ∨
      slotEntry key s' = .ok none ∧ key = (SlotKey.tombstone counterId).bytes := by
  rcases h.slots with hsame | ⟨entries, hbefore, hafter⟩
  · exact .inl (by rw [Write.slotEntry, Write.slotEntry, Transaction.get, Transaction.get, hsame])
  · rw [slotEntry_of_plain hbefore, slotEntry_of_plain hafter, Place.bytes_tombstone]
    by_cases hkey : key = (Place.tombstone counterId).bytes
    · exact .inr ⟨by rw [hkey, OrdMap.get?_erase_self], hkey⟩
    · exact .inl (by rw [OrdMap.get?_erase_of_ne _ hkey])

theorem leaves_merge_spares (hown : own ≠ .nil) (hkey : SlotKey.IsReserved key) :
    Leaves (merge group name (.node own) sign (.increment magnitude)) s
      (Spares group name key s) := by
  have haside := aside_slotEntry key
  refine Ends.bind (Ends.mono (preserves_resolve haside s).run (fun _ _ => id) fun _ => .inl) ?_
  rintro ⟨counterId, existed⟩ s₁ ⟨hresolve, h₁⟩
  have hresolves : s.Resolves group name counterId := ⟨existed, s₁, hresolve⟩
  have hdrops : Leaves (updateGroups group name counterId (.node own)) s₁
      (Spares group name key s) := by
    rw [updateGroups_node]
    refine (preserves_listLive haside trivial s₁).bind (fun _ h => .inl (h.trans h₁))
      fun _ s₂ h₂ => ?_
    refine (leaves_removeTombstone s₂).mono fun s₃ h₃ => ?_
    rcases h₃.slotEntry_cases key with hsame | ⟨hnone, htombstone⟩
    · exact .inl (hsame.trans (h₂.trans h₁))
    · exact .inr ⟨hnone, counterId, hresolves, htombstone⟩
  refine hdrops.bind (fun _ => id) fun _ s₃ h₃ => ?_
  -- The slot of the node stands under another key.
  have hne : SlotKey.bytes ⟨counterId, .node own, sign⟩ ≠ key := by
    rintro rfl
    exact hown ((SlotKey.isReserved_bytes_iff _).1 hkey)
  have htail : Preserves (slotEntry key) (do
      writeSlot (SlotKey.bytes ⟨counterId, .node own, sign⟩) (.increment magnitude)
      reassignEtag (SlotKey.bytes ⟨counterId, .node own, sign⟩)
      signal
      return existed) :=
    (preserves_writeSlot haside hne _).bind fun _ => (preserves_reassignEtag haside).bind fun _ =>
      (preserves_signal haside).bind fun _ => .pure _
  refine (htail s₃).mono fun s₄ h₄ => ?_
  rcases h₃ with hsame | ⟨hnone, hgone⟩
  · exact .inl (h₄.trans hsame)
  · exact .inr ⟨h₄.trans hnone, hgone⟩

theorem leaves_store_spares (hnode : s.node.serverId ≠ .nil) (hkey : SlotKey.IsReserved key) :
    Leaves (store group name delta) s (Spares group name key s) := by
  have hnames : Preserves id (checkNames group name) := preserves_checkNames
  refine (hnames s).bind (fun _ heq => .inl (congrArg _ heq)) ?_
  rintro _ _ rfl
  by_cases hdelta : delta = Int64.minValue
  · rw [if_pos hdelta]
    exact (refuses_throw _).bind.fails (.inl rfl) |>.leaves
  · rw [if_neg hdelta]
    refine returns_serverId.bind_leaves ?_
    rintro _ _ ⟨rfl, rfl⟩
    refine (leaves_merge_spares hnode hkey).bind (fun _ => id) fun existed s' h => ?_
    exact (returns_record _).bind_leaves fun _ _ heq => heq ▸ .pure h

theorem leaves_reset_spares (hnode : s.node.serverId ≠ .nil) (hkey : SlotKey.IsReserved key) :
    Leaves (reset group name) s (Spares group name key s) := by
  have hlive : Preserves id (checkLive group name) := preserves_query.bind fun _ => .pure _
  refine (hlive s).bind (fun _ heq => .inl (congrArg _ heq)) ?_
  rintro _ _ rfl
  refine (leaves_query _).bind (fun _ heq => .inl (congrArg _ heq)) ?_
  rintro total _ rfl
  by_cases hzero : total = 0
  · rw [if_pos hzero]
    exact .pure (.inl rfl)
  · rw [if_neg hzero]
    by_cases hleast : total = Int64.minValue
    · rw [if_pos hleast]
      exact (refuses_throw _).bind.fails (.inl rfl) |>.leaves
    · rw [if_neg hleast]
      exact (leaves_store_spares hnode hkey).bind (fun _ => id) fun _ _ => .pure

end Write

/-- The id that is recorded in a content. -/
def Database.recordedId? (db : Database) : Option Bytes :=
  match db.get? Layout.metadata with
  | some (.plain entries) => entries.get? Layout.serverIdKey
  | _ => none

/-- An opened store has the reserved id exactly if it took it over from the content. -/
theorem Opening.serverId_eq_nil_iff {opening : Opening} {backend : Engine} {store : Store}
    (hstart : opening.start backend = .ok store) (hfresh : opening.fresh ≠ .nil) :
    store.node.serverId = .nil ↔
      backend.committed.recordedId? = some ServerId.nil.bytes := by
  have hid : opening.requested.getD opening.fresh ≠ .nil :=
    serverId_ne_nil (valid_of_start hstart).2 hfresh
  rw [eq_ofDatabase_of_start hstart] at hstart
  obtain ⟨_, _, _, hsteps⟩ := exists_of_start hstart
  obtain ⟨entries, entries', hbefore, _, hentries, _, hserverId⟩ := hsteps.initializes.metadata
  have hrecorded : backend.committed.recordedId? = entries.get? Layout.serverIdKey := by
    rw [Database.recordedId?]
    rcases hbefore with hbefore | ⟨hbefore, rfl⟩
    · rw [hbefore]
    · rw [hbefore]
      rfl
  have haddition : addition (opening.requested.getD opening.fresh) Layout.serverIdKey =
      some (opening.requested.getD opening.fresh).bytes := rfl
  rw [hentries, haddition] at hserverId
  rw [hrecorded]
  cases hentry : entries.get? Layout.serverIdKey with
  | none =>
      rw [hentry, Option.none_or, Option.some.injEq] at hserverId
      exact iff_of_false (fun hnil => hid (ServerId.ext (hserverId.trans (congrArg _ hnil)))) nofun
  | some found =>
      rw [hentry, Option.some_or, Option.some.injEq] at hserverId
      rw [hserverId, Option.some.injEq]
      exact ⟨congrArg _, ServerId.ext⟩

/-- No call changes the id of the node. -/
theorem Call.serverId_finish (call : Call) (s : Session) :
    (call.finish s).node.serverId = s.node.serverId := by
  have haside : Write.Aside .all fun s : Session => s.node.serverId :=
    ⟨fun _ _ _ _ _ _ => rfl, fun _ _ _ => rfl, fun _ _ => rfl⟩
  have hpreserves : Write.Preserves (fun s => s.node.serverId) call.operation := by
    cases hdocument : call.document? with
    | none => exact preserves_operation haside (fun _ _ => rfl) (fun _ _ => rfl) hdocument
    | some document =>
        cases call with
        | updateReplication _ =>
            exact Write.Preserves.bind (Write.preserves_mutate fun _ _ _ => rfl)
              fun _ => Write.preserves_signal haside
        | _ => cases hdocument
  exact call.finish_of_leaves (hpreserves s)

namespace Stage

/-- The stages of a store until it is opened again. -/
inductive During (store : Store) : Stage → Prop where
  | start : During store (idle store)
  | next {stage stage' : Stage} {event : Event} (h : During store stage)
      (hnext : Happens stage event stage') (hevent : ∀ opening, event ≠ .reopen opening) :
      During store stage'

variable {opening : Opening} {backend : Engine} {store : Store} {stage : Stage}

theorem During.serverId_eq (h : During store stage) :
    stage.node.serverId = store.node.serverId := by
  induction h with
  | start => rfl
  | next h hnext hevent ih =>
      rw [← ih]
      cases hnext with
      | call call => exact call.serverId_finish _
      | turn hturn =>
          cases hturn with
          | reload => exact absurd rfl (hevent _)
          | step hstep =>
              cases hstep with
              | openWriter => rfl
              | call call => exact call.serverId_finish _
              | commit => rfl
              | drop => rfl
              | reopen => exact absurd rfl (hevent _)
              | outside => rfl
              | outsideWriting => rfl

/-- A store has the reserved id exactly if its content recorded it. On any other store, whatever
else the trees hold and whatever was called before, a store and a reset leave all slots under the
reserved id as they are, or remove the tombstone of their counter. A store moves the total of a live
counter by its delta; on a store with the reserved id it writes a slot under this id, and the total
stays. -/
theorem During.tombstones_stay_reserved (hstart : opening.start backend = .ok store)
    (hfresh : opening.fresh ≠ .nil) (h : During store stage) :
    (store.node.serverId = .nil ↔
      backend.committed.recordedId? = some ServerId.nil.bytes) ∧
    ∀ engine s, stage = writing engine s →
      (store.node.serverId ≠ .nil → ∀ group name delta,
        ∀ call ∈ [Call.store group name delta, .reset group name],
          ∀ key, SlotKey.IsReserved key → Write.Spares group name key s (call.finish s)) ∧
      ∀ group name delta action s' total,
        Index.totalOf s.writer.transaction group name = .ok total →
        (Write.store group name delta).run s = .ok action s' →
        s' = (Call.store group name delta).finish s ∧
        Index.totalOf s'.writer.transaction group name =
          .ok (total + if store.node.serverId = .nil then 0 else delta) ∧
        (store.node.serverId = .nil → ∃ key value, SlotKey.IsReserved key ∧
          Write.slotEntry key s' = .ok (some value)) := by
  refine ⟨Opening.serverId_eq_nil_iff hstart hfresh, ?_⟩
  rintro engine s rfl
  have hserverId : s.node.serverId = store.node.serverId := h.serverId_eq
  rw [← hserverId]
  refine ⟨fun hnode group name delta call hcall key hkey => ?_,
    fun group name delta action s' total htotal hrun => ⟨?_, Write.totalOf_store htotal hrun,
      Write.exists_reserved_of_store htotal hrun⟩⟩
  · rcases List.mem_pair.1 hcall with rfl | rfl
    · exact Call.finish_of_leaves _ (Call.leaves_discard (Write.leaves_store_spares hnode hkey))
    · exact Call.finish_of_leaves _ (Call.leaves_discard (Write.leaves_reset_spares hnode hkey))
  · rw [Call.finish_of_discard s rfl, leaving_of_ok hrun]

theorem During.playAll (events : List Event) (hevents : ∀ opening, Event.reopen opening ∉ events)
    {stage' : Stage} (h : During store stage) (hplay : stage.playAll events = some stage') :
    During store stage' := by
  induction events generalizing stage with
  | nil =>
      cases hplay
      exact h
  | cons event rest ih =>
      obtain ⟨next, hnext, hplay⟩ := Option.bind_eq_some_iff.1 hplay
      refine ih (fun opening hmem => hevents opening (.tail _ hmem)) ?_ hplay
      refine h.next (happens_of_play hnext) ?_
      rintro opening rfl
      exact hevents opening List.mem_cons_self

/-- The session of an open writer. -/
def session? : Stage → Option Session
  | idle _ => none
  | writing _ s => some s

/-- The session of the writer that is open after these events. -/
def sessionAfter? (opening : Opening) (backend : Engine) (events : List Event) : Option Session :=
  (opening.start backend).toOption.bind fun store =>
    ((idle store).playAll events).bind session?

theorem exists_of_sessionAfter? {events : List Event} {test : Session → Bool}
    (h : (sessionAfter? opening backend events).any test = true)
    (hevents : ∀ opening, Event.reopen opening ∉ events) :
    ∃ store engine s, opening.start backend = .ok store ∧ During store (writing engine s) ∧
      test s = true := by
  obtain ⟨s, hsession, htest⟩ := (Option.any_eq_true _ _).1 h
  obtain ⟨store, hstart, hsession⟩ := Option.bind_eq_some_iff.1 hsession
  obtain ⟨stage, hplay, hsession⟩ := Option.bind_eq_some_iff.1 hsession
  cases stage with
  | idle _ => cases hsession
  | writing engine _ =>
      cases hsession
      exact ⟨store, engine, s, eq_ok_of_toOption hstart,
        During.start.playAll events hevents hplay, htest⟩

/-- Whether the counter has this total, and a store with this delta is answered. -/
def Sample.answers (total delta : Int64) (s : Session) : Bool :=
  match (Write.store "group" "name" delta).run s with
  | .ok _ _ => decide (Index.totalOf s.writer.transaction "group" "name" = .ok total)
  | .error _ _ => false

theorem exists_of_answers {total delta : Int64} {s : Session}
    (h : Sample.answers total delta s = true) : ∃ action s',
      (Write.store "group" "name" delta).run s = .ok action s' ∧
      Index.totalOf s.writer.transaction "group" "name" = .ok total := by
  rw [Sample.answers] at h
  split at h
  · next action s' hrun => exact ⟨action, s', hrun, of_decide_eq_true h⟩
  · cases h

/-- A counter is deleted and written again, and then counts from three to minus one. -/
theorem tombstones_stay_reserved_of_revival : ∃ store engine s action s',
    plainOpening.start .empty = .ok store ∧ plainOpening.fresh ≠ .nil ∧
    During store (writing engine s) ∧ store.node.serverId ≠ .nil ∧
    Index.totalOf s.writer.transaction "group" "name" = .ok 3 ∧
    (Write.store "group" "name" (-4)).run s = .ok action s' ∧
    Index.totalOf s'.writer.transaction "group" "name" = .ok (-1) := by
  have hafter : (sessionAfter? plainOpening .empty [.openWriter, .call (.store "group" "name" 5),
      .call (.delete "group" "name"), .commit true, .openWriter,
      .call (.store "group" "name" 3)]).any (Sample.answers 3 (-4)) = true := by decide +kernel
  obtain ⟨store, engine, s, hstart, hduring, hanswers⟩ := exists_of_sessionAfter? hafter (by simp)
  obtain ⟨action, s', hrun, htotal⟩ := exists_of_answers hanswers
  obtain ⟨hid, hcalls⟩ := hduring.tombstones_stay_reserved hstart (by decide)
  have hne : store.node.serverId ≠ .nil := fun hnil => absurd (hid.1 hnil) (by decide)
  obtain ⟨_, hafter, _⟩ := (hcalls engine s rfl).2 "group" "name" (-4) action s' 3 htotal hrun
  rw [if_neg hne] at hafter
  exact ⟨store, engine, s, action, s', hstart, by decide, hduring, hne, htotal, hrun, hafter⟩

/-- A content that records the reserved id, with three counted by another node in a live counter. -/
def Sample.reserved : Database :=
  .ofList [(Layout.metadata, .plain (.ofList [(Layout.serverIdKey, ServerId.nil.bytes)])),
    (Layout.groupCounters, .multi (.ofList [(Bytes.ofText "group",
      .ofList [(GroupEntry.bytes (Bytes.ofText "name") 1, ())])])),
    (Layout.counters, .plain (.ofList [(Place.bytes ⟨1, ⟨List.replicate 16 2, rfl⟩, .positive⟩,
      Word.little 3)]))]

/-- On a content that records the reserved id, a store is answered, but the live counter does not
move by its delta. -/
theorem total_stays_of_reserved : ∃ store engine s action s',
    plainOpening.start (.ofDatabase Sample.reserved) = .ok store ∧ plainOpening.fresh ≠ .nil ∧
    During store (writing engine s) ∧
    Index.totalOf s.writer.transaction "group" "name" = .ok 3 ∧
    (Write.store "group" "name" 7).run s = .ok action s' ∧
    Index.totalOf s'.writer.transaction "group" "name" = .ok 3 ∧
    ∃ key value, SlotKey.IsReserved key ∧ Write.slotEntry key s' = .ok (some value) := by
  have hopened : (sessionAfter? plainOpening (.ofDatabase Sample.reserved) [.openWriter]).any
      (Sample.answers 3 7) = true := by decide +kernel
  obtain ⟨store, engine, s, hstart, hduring, hanswers⟩ := exists_of_sessionAfter? hopened (by simp)
  obtain ⟨action, s', hrun, htotal⟩ := exists_of_answers hanswers
  have hnil : s.node.serverId = .nil := hduring.serverId_eq.trans
    ((Opening.serverId_eq_nil_iff hstart (by decide)).2 (by decide))
  have hafter := Write.totalOf_store htotal hrun
  rw [if_pos hnil] at hafter
  exact ⟨store, engine, s, action, s', hstart, by decide, hduring, htotal, hrun, hafter,
    Write.exists_reserved_of_store htotal hrun hnil⟩

end Stage

end CounterMesh
