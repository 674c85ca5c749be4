import CounterMesh.Proofs.Replication.Intake
import CounterMesh.Proofs.Store.Revival

/-!
# Messages that arrive twice

What an entry makes of a value in a slot does not depend on the rest of the
store: it sets the slot that it is about, empties the tombstone of its counter,
and keeps every other value. Each of these is a constant or does nothing, and so
are any entries one after another, in whatever order they come and however often
they name one slot. Entries that arrive a second time therefore set no value that
is not there already, although they may be written again on the way. Every
counter they are about is listed by then, so that no counter id is taken.
-/

namespace CounterMesh

namespace FeedEntry

/-- The slot that an entry is written to: of a tombstone there is one only. -/
def target (e : FeedEntry) : SlotName := ⟨e.group, e.name, e.serverId, e.sign.under e.serverId⟩

/-- What an entry makes of a value in a slot. -/
def sets (own : ServerId) (k : SlotName) (value : Option Int64) (e : FeedEntry) : Option Int64 :=
  if e.serverId = own then value
  else if k = e.target then some e.value
  else if k = .tombstone e.group e.name then none
  else value

/-- What entries make of a value in a slot, one after another. -/
def setsAll (own : ServerId) (k : SlotName) (entries : List FeedEntry) (value : Option Int64) :
    Option Int64 :=
  entries.foldl (sets own k) value

variable {own : ServerId} {k : SlotName} {entries : List FeedEntry} {e : FeedEntry}

theorem sets_cases (own : ServerId) (k : SlotName) (e : FeedEntry) :
    (∀ value, sets own k value e = value) ∨ ∃ result, ∀ value, sets own k value e = result := by
  by_cases hown : e.serverId = own
  · exact .inl fun _ => if_pos hown
  · by_cases htarget : k = e.target
    · exact .inr ⟨some e.value, fun _ => (if_neg hown).trans (if_pos htarget)⟩
    · by_cases htombstone : k = .tombstone e.group e.name
      · exact .inr ⟨none, fun _ =>
          (if_neg hown).trans ((if_neg htarget).trans (if_pos htombstone))⟩
      · exact .inl fun _ => (if_neg hown).trans ((if_neg htarget).trans (if_neg htombstone))

/-- Entries keep all values of a slot, or the last one that does not decides. -/
theorem setsAll_cases (own : ServerId) (k : SlotName) (entries : List FeedEntry) :
    (∀ value, setsAll own k entries value = value) ∨
      ∃ result, ∀ value, setsAll own k entries value = result := by
  induction entries with
  | nil => exact .inl fun _ => rfl
  | cons e rest ih =>
      rcases ih with hkeep | ⟨result, hresult⟩
      · rcases sets_cases own k e with hkeep' | ⟨result, hresult⟩
        · exact .inl fun value => (hkeep _).trans (hkeep' value)
        · exact .inr ⟨result, fun value => (hkeep _).trans (hresult value)⟩
      · exact .inr ⟨result, fun value => hresult (sets own k value e)⟩

/-- Entries that come a second time set what they have set. -/
theorem setsAll_setsAll (value : Option Int64) :
    setsAll own k entries (setsAll own k entries value) = setsAll own k entries value := by
  rcases setsAll_cases own k entries with hkeep | ⟨result, hresult⟩
  · exact hkeep _
  · rw [hresult, hresult]

end FeedEntry

namespace Catalog

variable {c c' : Catalog} {own : ServerId} {e : FeedEntry} {entries : List FeedEntry}

/-- The write of a foreign entry sets the values that the entry sets. -/
theorem value_put_target (hs : c.Sound) (hroom : c.HasRoom 1) (hforeign : e.serverId ≠ own)
    (k : SlotName) :
    ((c.put e.group e.name e.serverId (e.sign.under e.serverId) e.value).slot k).map Cell.value =
      e.sets own k ((c.slot k).map Cell.value) := by
  rw [slot_put hs hroom, FeedEntry.sets, if_neg hforeign, FeedEntry.target]
  split
  · rfl
  · split
    · rfl
    · rfl

/-- A foreign entry under the reserved id is passed over only with the sign that tombstones have. -/
theorem sign_of_knows (hs : c.Sound) (hforeign : e.serverId ≠ own) (hknows : c.knows own e = true)
    (hnil : e.serverId = .nil) : e.sign = .positive := by
  obtain ⟨hvalue, _⟩ := (knows_iff.1 hknows).resolve_left hforeign
  obtain ⟨cell, hcell, _⟩ := Option.map_eq_some_iff.1 hvalue
  exact congrArg SlotName.sign (hs.eq_tombstone hcell hnil)

/-- An entry that is passed over would set what is there. -/
theorem sets_of_knows (hs : c.Sound) (hknows : c.knows own e = true) (k : SlotName) :
    e.sets own k ((c.slot k).map Cell.value) = (c.slot k).map Cell.value := by
  by_cases hforeign : e.serverId = own
  · exact if_pos hforeign
  · have hreserved : e.serverId = .nil → e.sign = .positive := sign_of_knows hs hforeign hknows
    have hplace := ((knows_iff_inPlace hreserved).1 hknows).resolve_left hforeign
    have htarget : e.target = e.slotName := by
      rw [FeedEntry.target, FeedEntry.slotName]
      by_cases hnil : e.serverId = .nil
      · rw [Sign.under_nil e.sign hnil, hreserved hnil]
      · rw [Sign.under_node e.sign hnil]
    rw [FeedEntry.sets, if_neg hforeign, htarget]
    split
    · next hk => rw [hk, hplace.holds]
    · next hk =>
      split
      · next htombstone =>
        have hnode : e.serverId ≠ .nil := fun hnil => hk (by
          rw [htombstone, FeedEntry.slotName, hnil, hreserved hnil]
          rfl)
        have hgone : c.slot (.tombstone e.group e.name) = none :=
          Option.not_isSome_iff_eq_none.1 (hplace.not_dead hnode)
        rw [htombstone, hgone]
        rfl
      · rfl

theorem value_receive (hs : c.Sound) (hroom : c.HasRoom 1) (own : ServerId) (e : FeedEntry)
    (k : SlotName) :
    ((c.receive own e).slot k).map Cell.value = e.sets own k ((c.slot k).map Cell.value) := by
  cases hknows : c.knows own e with
  | true => rw [receive_of_knows hknows, sets_of_knows hs hknows]
  | false =>
      have hforeign : e.serverId ≠ own := fun hown => by
        rw [knows_iff.2 (.inl hown)] at hknows
        cases hknows
      rw [receive_of_not_knows hknows, value_put_target hs hroom hforeign]

theorem value_absorb (own : ServerId) (hs : c.Sound) (hroom : c.HasRoom entries.length)
    (k : SlotName) : ((c.absorb own entries).slot k).map Cell.value =
      FeedEntry.setsAll own k entries ((c.slot k).map Cell.value) := by
  induction entries generalizing c with
  | nil => rfl
  | cons e rest ih =>
      rw [List.length_cons, Nat.add_comm] at hroom
      have hevolves : Evolves False 1 c (c.receive own e) := evolves_receive (.refl 0 c) own e
      have hroom' := hroom.mono (Nat.le_add_right 1 _)
      rw [absorb_cons, ih (hevolves.sound hs hroom') (hevolves.hasRoom hroom),
        value_receive hs hroom']
      rfl

/-- No counter id is taken: the same counters are listed under their ids, and of the metadata only
the last etag may differ. -/
structure TakesNoId (c c' : Catalog) : Prop where
  ids : c'.ids = c.ids
  lastCounterId : c'.lastCounterId = c.lastCounterId
  metadata : ∀ key, key ≠ Layout.lastEtagKey → c'.metadata key = c.metadata key

theorem TakesNoId.refl (c : Catalog) : TakesNoId c c := ⟨rfl, rfl, fun _ _ => rfl⟩

theorem TakesNoId.trans {c'' : Catalog} (h : TakesNoId c c') (h' : TakesNoId c' c'') :
    TakesNoId c c'' where
  ids := h'.ids.trans h.ids
  lastCounterId := h'.lastCounterId.trans h.lastCounterId
  metadata := fun key hkey => (h'.metadata key hkey).trans (h.metadata key hkey)

/-- A write of a counter that is listed takes no id. -/
theorem takesNoId_put {group name : String} {id : CounterId} (hid : c.ids group name = some id)
    (serverId : ServerId) (sign : Sign) (value : Int64) :
    TakesNoId c (c.put group name serverId sign value) where
  ids := by
    funext g n
    by_cases hname : g = group ∧ n = name
    · obtain ⟨rfl, rfl⟩ := hname
      rw [ids_put_self, idFor_of_some hid, hid]
    · exact ids_put_of_ne _ _ _ _ _ _ hname
  lastCounterId := by
    rcases lastCounterId_put_cases c group name serverId sign value with ⟨_, hlast⟩ | ⟨hnone, _⟩
    · exact hlast
    · rw [hid] at hnone
      cases hnone
  metadata := by
    intro key hkey
    have hreserve : c.reserve group name = c := by rw [reserve, hid]
    have hput : (c.put group name serverId sign value).metadata =
        (c.reserve group name).takeEtag.metadata := rfl
    rw [hput, hreserve, metadata_takeEtag, Function.update_of_ne hkey]

/-- The counters of all foreign entries are listed. -/
def ListsAll (c : Catalog) (own : ServerId) (entries : List FeedEntry) : Prop :=
  ∀ e ∈ entries, e.serverId ≠ own → ∃ id, c.ids e.group e.name = some id

theorem ids_absorb_of_some {group name : String} {id : CounterId}
    (hid : c.ids group name = some id) : (c.absorb own entries).ids group name = some id := by
  have hevolves : Evolves False (0 + entries.length) c (c.absorb own entries) :=
    evolves_absorb (.refl 0 c)
  exact hevolves.ids_eq not_false hid

theorem exists_ids_receive (hforeign : e.serverId ≠ own) :
    ∃ id, (c.receive own e).ids e.group e.name = some id := by
  cases hknows : c.knows own e with
  | true =>
      obtain ⟨hvalue, _⟩ := (knows_iff.1 hknows).resolve_left hforeign
      obtain ⟨cell, hcell, _⟩ := Option.map_eq_some_iff.1 hvalue
      obtain ⟨id, hid, _⟩ := slot_eq_some_iff.1 hcell
      rw [receive_of_knows hknows]
      exact ⟨id, hid⟩
  | false =>
      rw [receive_of_not_knows hknows]
      exact ⟨_, ids_put_self ..⟩

theorem listsAll_absorb : (c.absorb own entries).ListsAll own entries := by
  induction entries generalizing c with
  | nil => exact nofun
  | cons e rest ih =>
      intro e' he' hforeign
      rw [absorb_cons]
      rcases List.mem_cons.1 he' with rfl | he'
      · obtain ⟨id, hid⟩ := exists_ids_receive (c := c) hforeign
        exact ⟨id, ids_absorb_of_some hid⟩
      · exact ih e' he' hforeign

theorem takesNoId_receive (hlisted : e.serverId ≠ own → ∃ id, c.ids e.group e.name = some id) :
    TakesNoId c (c.receive own e) := by
  cases hknows : c.knows own e with
  | true =>
      rw [receive_of_knows hknows]
      exact .refl c
  | false =>
      have hforeign : e.serverId ≠ own := fun hown => by
        rw [knows_iff.2 (.inl hown)] at hknows
        cases hknows
      obtain ⟨id, hid⟩ := hlisted hforeign
      rw [receive_of_not_knows hknows]
      exact takesNoId_put hid _ _ _

theorem takesNoId_absorb (h : c.ListsAll own entries) : TakesNoId c (c.absorb own entries) := by
  induction entries generalizing c with
  | nil => exact .refl c
  | cons e rest ih =>
      have hfirst : TakesNoId c (c.receive own e) :=
        takesNoId_receive fun hforeign => h e List.mem_cons_self hforeign
      refine hfirst.trans (ih fun e' he' hforeign => ?_)
      rw [hfirst.ids]
      exact h e' (.tail _ he') hforeign

/-- The same counters are listed, with the same values in their slots. -/
structure SameCounters (c c' : Catalog) : Prop where
  ids : c'.ids = c.ids
  values : c'.valueAt = c.valueAt

/-- Values that are the same by name are the same in their places. -/
theorem SameCounters.of_slots (hs : c.Sound) (hs' : c'.Sound) (hids : c'.ids = c.ids)
    (hvalues : ∀ k, (c'.slot k).map Cell.value = (c.slot k).map Cell.value) :
    SameCounters c c' where
  ids := hids
  values := by
    have hcells : ∀ {group name} {p : Place}, c.ids group name = some p.counterId →
        c'.valueAt p = c.valueAt p := by
      intro group name p hid
      have hvalue := hvalues ⟨group, name, p.serverId, p.sign⟩
      have hid' : c'.ids group name = some p.counterId := hids ▸ hid
      rwa [slot_of_ids (k := ⟨group, name, p.serverId, p.sign⟩) hid,
        slot_of_ids (k := ⟨group, name, p.serverId, p.sign⟩) hid'] at hvalue
    funext p
    cases hcell : c.cells p with
    | some cell =>
        obtain ⟨group, name, hid⟩ := hs.id_of_slot hcell
        exact hcells hid
    | none =>
        cases hcell' : c'.cells p with
        | some cell =>
            obtain ⟨group, name, hid⟩ := hs'.id_of_slot hcell'
            exact hcells (hids ▸ hid)
        | none => rw [valueAt, valueAt, hcell, hcell']

/-- The trees that say which counters there are, what their slots hold and which are deleted. -/
def statusTrees : List String :=
  [Layout.counters, Layout.groupCounters, Layout.tombstonedGroupCounters, Layout.tombstonesByDate]

theorem SameCounters.names_eq {db db' : Database} (h : SameCounters c c') (hdb : db.Shows c.ledger)
    (hdb' : db'.Shows c'.ledger) : db'.get? Layout.counterNames = db.get? Layout.counterNames := by
  refine hdb'.get?_plain_eq hdb (c := .names) ?_
  funext key group
  rw [plain_ledger_names, plain_ledger_names, h.ids]

theorem SameCounters.status_eq {db db' : Database} (h : SameCounters c c')
    (hdb : db.Shows c.ledger) (hdb' : db'.Shows c'.ledger) {name : String}
    (hname : name ∈ statusTrees) : db'.get? name = db.get? name := by
  have hdeleted : ∀ id, c'.Deleted id ↔ c.Deleted id := by
    intro id
    rw [deleted_iff_valueAt, deleted_iff_valueAt, h.values]
  simp only [statusTrees, List.mem_cons, List.not_mem_nil, or_false] at hname
  rcases hname with rfl | rfl | rfl | rfl
  · refine hdb'.get?_plain_eq hdb (c := .values) ?_
    funext p value
    rw [plain_ledger_values, plain_ledger_values, h.values]
  · refine hdb'.get?_multi_eq hdb (c := .live) ?_
    funext group entry
    rw [multi_ledger_live, multi_ledger_live, h.ids, hdeleted]
  · refine hdb'.get?_multi_eq hdb (c := .deleted) ?_
    funext group entry
    rw [multi_ledger_deleted, multi_ledger_deleted, h.ids, hdeleted]
  · refine hdb'.get?_multi_eq hdb (c := .dates) ?_
    funext ticks p
    rw [multi_ledger_dates, multi_ledger_dates, h.values]

/-- Everything is the same in both catalogs but the etags of the slots and the last etag. -/
structure SameButEtags (c c' : Catalog) : Prop where
  counters : SameCounters c c'
  sequence : TakesNoId c c'
  cursors : c'.cursors = c.cursors

/-- A cursor that has come to the end of entries stays there. -/
theorem cursorAfter_cursorAfter (cursor : Etag) (entries : List FeedEntry) :
    cursorAfter (cursorAfter cursor entries) entries = cursorAfter cursor entries := by
  refine UInt64.le_antisymm ?_ le_cursorAfter
  rcases cursorAfter_cases (cursorAfter cursor entries) entries with heq | ⟨e, he, heq⟩
  · rw [heq]
    exact UInt64.le_refl _
  · rw [heq]
    exact etag_le_cursorAfter he

theorem sameCounters_absorb_absorb (own : ServerId) (hs : c.Sound)
    (hroom : c.HasRoom (entries.length + entries.length)) :
    SameCounters (c.absorb own entries) ((c.absorb own entries).absorb own entries) := by
  have hs' := sound_absorb own hs (hroom.mono (Nat.le_add_right _ _))
  have hroom' := hasRoom_absorb own hroom
  refine .of_slots hs' (sound_absorb own hs' hroom') (takesNoId_absorb listsAll_absorb).ids
    fun k => ?_
  rw [value_absorb own hs' hroom', value_absorb own hs (hroom.mono (Nat.le_add_right _ _)),
    FeedEntry.setsAll_setsAll]

/-- A message that is applied again changes etags only. -/
theorem sameButEtags_apply_apply (own : ServerId) (message : Message) (hs : c.Sound)
    (hroom : c.HasRoom (message.entries.length + message.entries.length)) :
    SameButEtags (c.apply own message) ((c.apply own message).apply own message) := by
  obtain ⟨peer, entries⟩ := message
  by_cases hnil : entries = []
  · rw [hnil, apply_nil, apply_nil]
    exact ⟨⟨rfl, rfl⟩, .refl c, rfl⟩
  · have hfirst : c.apply own ⟨peer, entries⟩ = (c.absorb own entries).setCursor peer
        (cursorAfter (c.cursorFor peer) entries) := if_neg hnil
    have hboth : (c.apply own ⟨peer, entries⟩).apply own ⟨peer, entries⟩ =
        ((c.absorb own entries).absorb own entries).setCursor peer
          (cursorAfter (c.cursorFor peer) entries) := by
      have hnil' : entries ++ entries ≠ [] := by simp [hnil]
      rw [apply_append, ← absorb_append, ← cursorAfter_cursorAfter, ← cursorAfter_append]
      exact if_neg hnil'
    have hcounters := sameCounters_absorb_absorb own hs hroom
    have hsequence : TakesNoId (c.absorb own entries) ((c.absorb own entries).absorb own entries) :=
      takesNoId_absorb listsAll_absorb
    rw [hboth, hfirst]
    refine ⟨⟨hcounters.ids, hcounters.values⟩,
      ⟨hsequence.ids, hsequence.lastCounterId, hsequence.metadata⟩, ?_⟩
    rw [cursors_setCursor, cursors_setCursor, cursors_absorb]

end Catalog

/-- The trees that hold etags of slots: both indexes, and the metadata with the last etag. -/
def etagTrees : List String := [Layout.metadata, Layout.keyToEtag, Layout.etagToKey]

/-- Everything is the same in both writers but the etags of slots and the last etag. -/
structure Session.SameButEtags (s s' : Session) : Prop where
  trees : ∀ name ∈ Layout.trees.map Prod.fst, name ∉ etagTrees →
    s'.writer.transaction.trees.get? name = s.writer.transaction.trees.get? name
  metadata : ∀ key, key ≠ Layout.lastEtagKey →
    s'.writer.transaction.get Layout.metadata key = s.writer.transaction.get Layout.metadata key
  lastCounterId : s'.writer.lastCounterId = s.writer.lastCounterId

theorem Catalog.SameButEtags.session {c c' : Catalog} (h : SameButEtags c c') {s s' : Session}
    {home home' : Node} (hs : s.Shows home c.ledger) (hs' : s'.Shows home' c'.ledger) :
    s.SameButEtags s' where
  trees := by
    intro name hname hnot
    have hstatus : ∀ name ∈ Catalog.statusTrees, s'.writer.transaction.trees.get? name =
        s.writer.transaction.trees.get? name :=
      fun _ => h.counters.status_eq hs.trees hs'.trees
    simp only [Layout.trees, List.map_cons, List.map_nil, List.mem_cons, List.not_mem_nil,
      or_false] at hname
    rcases hname with rfl | rfl | rfl | rfl | rfl | rfl | rfl | rfl | rfl
    · exact absurd (by decide) hnot
    · exact hstatus _ (by decide)
    · exact hstatus _ (by decide)
    · exact hstatus _ (by decide)
    · exact h.counters.names_eq hs.trees hs'.trees
    · exact hstatus _ (by decide)
    · exact absurd (by decide) hnot
    · exact absurd (by decide) hnot
    · refine hs'.trees.get?_plain_eq hs.trees (c := .cursors) ?_
      funext serverId etag
      rw [plain_ledger_cursors, plain_ledger_cursors, h.cursors]
  metadata := by
    intro key hkey
    obtain ⟨found, hget, hfound⟩ := Transaction.get_of_shows hs.trees .metadata key
    obtain ⟨found', hget', hfound'⟩ := Transaction.get_of_shows hs'.trees .metadata key
    have heq : found' = found := Option.ext fun value => by
      rw [hfound', hfound, plain_ledger_metadata, plain_ledger_metadata,
        h.sequence.metadata key hkey]
    rw [heq] at hget'
    exact hget'.trans hget.symm
  lastCounterId := hs'.lastCounterId.trans (h.sequence.lastCounterId.trans hs.lastCounterId.symm)

namespace Stage

/-- In every state of a run a message about counters with names is applied, and applied again
before any other call, by the same writer or by a later one: the second time changes etags only. -/
theorem Reachable.redelivery_changes_etags_only {engine : Engine} {s : Session}
    (h : Reachable (writing engine s)) (message : Message)
    (hnamed : ∀ e ∈ message.entries, Named e.group e.name)
    (hetag : s.writer.lastEtag.toNat + 2 * message.entries.length < UInt64.size)
    (hcounterId : s.writer.lastCounterId.toNat + 2 * message.entries.length < UInt64.size) :
    ∃ outcome s₁, (Write.applyMessage message).run s = .ok outcome s₁ ∧
      ∀ engine' s₁', Leads Event.Quiet (writing engine s₁) (writing engine' s₁') →
        ∃ outcome' s₂, (Write.applyMessage message).run s₁' = .ok outcome' s₂ ∧
          s₁.SameButEtags s₂ := by
  obtain ⟨base, cur, hpresents⟩ := h.presents
  obtain ⟨hs, _, home, _, hshows⟩ := hpresents.carries
  have hstep : Step (writing engine s) (.call (.apply message))
      (writing engine ((Call.apply message).finish s)) :=
    .call _ (by rw [Call.writes]; omega) (by rw [Call.writes]; omega)
  rw [hshows.lastEtag] at hetag
  rw [hshows.lastCounterId] at hcounterId
  rw [Nat.two_mul] at hetag hcounterId
  have hroom : cur.HasRoom (message.entries.length + message.entries.length) :=
    ⟨hetag, hcounterId⟩
  obtain ⟨outcome, s₁, hrun, _, hshows₁⟩ :=
    Write.returns_applyMessage message hshows hs hnamed (hroom.mono (Nat.le_add_right _ _))
  refine ⟨outcome, s₁, hrun, fun engine' s₁' hleads => ?_⟩
  have hfinish : (Call.apply message).finish s = s₁ :=
    Call.finish_apply_eq (.inl ⟨outcome, s₁, hrun, rfl⟩)
  rw [hfinish] at hstep
  obtain ⟨_, cur', hpresents', _⟩ := hstep.presents hpresents
  obtain ⟨_, hr', _, _, hshows'⟩ := hpresents'.carries
  obtain rfl : cur' = cur.apply home.serverId message := hshows'.catalog_unique hshows₁
  obtain ⟨_, hpresents₂⟩ := hleads.presents_cur (h.step hstep) hpresents'
  obtain ⟨hs', hr₂, home₂, _, hshows₂⟩ := hpresents₂.carries
  -- The later writer belongs to the same node.
  have hown : home₂.serverId = home.serverId := by
    rw [← hshows₂.serverId_eq, ← hshows₁.serverId_eq]
    exact hr₂.unique hr'
  have hevolves : Catalog.Evolves False (0 + message.entries.length) cur
      (cur.apply home.serverId message) := Catalog.evolves_apply (.refl 0 cur) message
  obtain ⟨outcome', s₂, hrun', _, hagain⟩ := Write.returns_applyMessage message hshows₂ hs' hnamed
    (hevolves.hasRoom (by rwa [Nat.zero_add]))
  rw [hown] at hagain
  exact ⟨outcome', s₂, hrun',
    (Catalog.sameButEtags_apply_apply home.serverId message hs hroom).session hshows₁ hagain⟩

/-- Entries that delete a counter, revive it and delete it again, the last time under a sign that no
tombstone has. -/
def wavering : Message where
  serverId := .ofByte 9
  entries :=
    [⟨"group", "name", .nil, .positive, 100, 1⟩,
      ⟨"group", "name", .ofByte 8, .negative, 5, 2⟩,
      ⟨"group", "name", .nil, .negative, 200, 3⟩,
      ⟨"group", "name", .ofByte 1, .positive, 7, 4⟩]

/-- The second time three of the four entries are written again. -/
theorem redelivery_of_wavering : ∃ (s s₁ s₂ : Session) (outcome outcome' : Applied),
    (Write.applyMessage wavering).run s = .ok outcome s₁ ∧
    (Write.applyMessage wavering).run s₁ = .ok outcome' s₂ ∧ outcome'.applied = 3 ∧
    s₁.SameButEtags s₂ := by
  obtain ⟨engine, s, _, hreachable, hetag, hcounterId, hagain⟩ := exists_afterCalls_of_finds
    plainOpening rfl (by decide) (by decide) [.store "group" "name" 1] (by decide)
    (fun _ s => s.writer.lastEtag = 1 ∧ s.writer.lastCounterId = 1 ∧
      Returns (Write.applyMessage wavering) ((Call.apply wavering).finish s)
        fun outcome _ => outcome.applied = 3) (by decide +kernel)
  obtain ⟨outcome, s₁, hrun, hleads⟩ := hreachable.redelivery_changes_etags_only wavering
    (by decide) (by rw [hetag]; decide) (by rw [hcounterId]; decide)
  obtain ⟨outcome', s₂, hrun', hsame⟩ := hleads engine s₁ .refl
  have hfinish : (Call.apply wavering).finish s = s₁ :=
    Call.finish_apply_eq (.inl ⟨outcome, s₁, hrun, rfl⟩)
  rw [hfinish] at hagain
  obtain ⟨_, _, hagain, hthree⟩ := hagain
  obtain ⟨rfl, rfl⟩ := EStateM.Result.ok.inj (hagain.symm.trans hrun')
  exact ⟨s, s₁, _, outcome, _, hrun, hrun', hthree, hsame⟩

end Stage

end CounterMesh
