import CounterMesh.Proofs.Replication.Intake
import CounterMesh.Proofs.Store.Journal

/-!
# Slots of the node itself

A message may name any slot, also one of the node that applies it, and any value.
The node passes over the entries of its own slots. The other entries write other
slots, and set tombstones and take them away, whether the message is applied to
its end or fails half-way. While nothing is purged, the slots of a node therefore
hold what its own deltas have added to them.
-/

namespace CounterMesh

namespace Delta

/-- The sizes of the deltas of a counter that have this sign. -/
def sizes (group name : String) (sign : Sign) (deltas : List Delta) : List Int64 :=
  (deltas.filter fun d => d.group = group ∧ d.name = name ∧ Sign.ofDelta d.amount = sign).map
    fun d => d.amount.abs

/-- The wrapped sum of these sizes, if there are any. -/
def sum? (group name : String) (sign : Sign) (deltas : List Delta) : Option Int64 :=
  if sizes group name sign deltas = [] then none else some (sizes group name sign deltas).sum

variable {group name : String} {sign : Sign} {d : Delta} {deltas : List Delta} {own : ServerId}

theorem slot_eq_iff : d.slot own = ⟨group, name, own, sign⟩ ↔
    d.group = group ∧ d.name = name ∧ Sign.ofDelta d.amount = sign := by
  simp [slot]

theorem getD_sum? : (sum? group name sign deltas).getD 0 = (sizes group name sign deltas).sum := by
  rw [sum?]
  split
  · next hnone => rw [hnone]; rfl
  · rfl

theorem sum?_cons_of_slot (h : d.slot own = ⟨group, name, own, sign⟩) :
    sum? group name sign (d :: deltas) =
      some ((sum? group name sign deltas).getD 0 + d.amount.abs) := by
  have hsizes : sizes group name sign (d :: deltas) =
      d.amount.abs :: sizes group name sign deltas := by
    rw [sizes, List.filter_cons_of_pos (by simpa using slot_eq_iff.1 h)]
    rfl
  rw [sum?, hsizes, if_neg (List.cons_ne_nil _ _), List.sum_cons, getD_sum?, Int64.add_comm]

theorem sum?_cons_of_ne (h : d.slot own ≠ ⟨group, name, own, sign⟩) :
    sum? group name sign (d :: deltas) = sum? group name sign deltas := by
  have hsizes : sizes group name sign (d :: deltas) = sizes group name sign deltas := by
    rw [sizes, List.filter_cons_of_neg (by simpa using mt slot_eq_iff.2 h)]
    rfl
  rw [sum?, hsizes, sum?]

end Delta

namespace Catalog

variable {c c' c'' : Catalog} {own : ServerId} {d : Delta} {deltas : List Delta}
variable {e : FeedEntry} {entries : List FeedEntry}

/-- The slots of this node are as they were, values and etags. -/
def Spares (own : ServerId) (c c' : Catalog) : Prop :=
  ∀ k : SlotName, k.serverId = own → c'.slot k = c.slot k

/-- The slots of this node hold the wrapped sums of these deltas. -/
def Credited (own : ServerId) (deltas : List Delta) (c : Catalog) : Prop :=
  ∀ group name sign,
    (c.slot ⟨group, name, own, sign⟩).map Cell.value = Delta.sum? group name sign deltas

theorem Spares.refl (own : ServerId) (c : Catalog) : Spares own c c := fun _ _ => rfl

theorem Spares.trans (h : Spares own c c') (h' : Spares own c' c'') : Spares own c c'' :=
  fun k hk => (h' k hk).trans (h k hk)

/-- A write of another slot takes at most a tombstone away. -/
theorem spares_put (hs : c.Sound) (hroom : c.HasRoom 1) (hown : own ≠ .nil)
    {group name : String} {serverId : ServerId} (hforeign : serverId ≠ own) (sign : Sign)
    (value : Int64) : Spares own c (c.put group name serverId sign value) := by
  rintro k rfl
  rw [slot_put hs hroom, if_neg, if_neg]
  · exact fun ht => hown (congrArg SlotName.serverId ht)
  · exact fun hk => hforeign (congrArg SlotName.serverId hk).symm

/-- An entry of an own slot is passed over, and every other entry writes another slot. -/
theorem spares_receive (hs : c.Sound) (hroom : c.HasRoom 1) (hown : own ≠ .nil) (e : FeedEntry) :
    Spares own c (c.receive own e) := by
  cases hknows : c.knows own e with
  | true =>
      rw [receive_of_knows hknows]
      exact .refl own c
  | false =>
      rw [receive_of_not_knows hknows]
      refine spares_put hs hroom hown (fun heq => ?_) _ _
      rw [knows_iff.2 (.inl heq)] at hknows
      cases hknows

theorem spares_absorb (hs : c.Sound) (hroom : c.HasRoom entries.length) (hown : own ≠ .nil) :
    Spares own c (c.absorb own entries) := by
  induction entries generalizing c with
  | nil => exact .refl own c
  | cons e rest ih =>
      rw [List.length_cons, Nat.add_comm] at hroom
      have hroom' := hroom.mono (Nat.le_add_right 1 _)
      have hevolves : Evolves False 1 c (c.receive own e) := evolves_receive (.refl 0 c) own e
      exact (spares_receive hs hroom' hown e).trans
        (ih (hevolves.sound hs hroom') (hevolves.hasRoom hroom))

theorem spares_of_same_counters (hids : c'.ids = c.ids) (hcells : c'.cells = c.cells) :
    Spares own c c' := by
  intro k _
  rw [slot, slot, hids, hcells]

theorem Credited.spares (h : c.Credited own deltas) (hspares : Spares own c c') :
    c'.Credited own deltas := by
  intro group name sign
  rw [hspares ⟨group, name, own, sign⟩ rfl]
  exact h group name sign

theorem Credited.credit (h : c.Credited own deltas) (hs : c.Sound) (hroom : c.HasRoom 1)
    (hown : own ≠ .nil) (d : Delta) : (c.credit own d).Credited own (d :: deltas) := by
  intro group name sign
  rw [slot_credit hs hroom]
  by_cases hslot : (⟨group, name, own, sign⟩ : SlotName) = d.slot own
  · rw [if_pos hslot, Delta.sum?_cons_of_slot hslot.symm, ← h group name sign, ← hslot]
    rfl
  · rw [if_neg hslot, if_neg fun ht => hown (congrArg SlotName.serverId ht),
      Delta.sum?_cons_of_ne (Ne.symm hslot)]
    exact h group name sign

/-- Deltas are added to what the slots hold already. -/
theorem Credited.credits (h : c.Credited own deltas) (hs : c.Sound) (hown : own ≠ .nil)
    (new : List Delta) (hroom : c.HasRoom new.length) :
    (c.credits own new).Credited own (new ++ deltas) := by
  induction new with
  | nil => exact h
  | cons d older ih =>
      obtain ⟨hs', hroom'⟩ := hs.credits hown older (Nat.le_refl _) hroom
      exact (ih (hroom.mono (Nat.le_succ _))).credit hs' hroom' hown d

theorem initial_credited (own : ServerId) : (initial own).Credited own [] := fun _ _ _ => rfl

end Catalog

/-- What applying a message leaves has the same slots of the node, whether it answers or fails. -/
theorem Write.leaves_applyMessage_spares {s : Session} {home : Node} {c : Catalog}
    (message : Message) (h : s.Shows home c.ledger) (hs : c.Sound)
    (hroom : c.HasRoom message.entries.length) (hnode : home.serverId ≠ .nil) :
    Leaves (applyMessage message) s fun s' => ∃ c', c.Spares home.serverId c' ∧
      s'.Shows home c'.ledger := by
  refine (applyMessage_ends message h hs hroom).mono ?_ ?_
  · rintro _ s' ⟨_, _, h'⟩
    refine ⟨_, fun k hk => ?_, h'⟩
    rw [Catalog.slot_apply]
    exact Catalog.spares_absorb hs hroom hnode k hk
  · rintro s' ⟨_, front, hfront, _, h'⟩
    exact ⟨_, Catalog.spares_absorb hs (hroom.mono hfront.length_le) hnode, h'⟩

namespace Call

/-- The deltas that a call adds to the slots of its node, the newest first, unless it fails. A
deletion brings the total to zero that readers were told before. -/
def deltas (s : Session) : Call → List Delta
  | store group name delta =>
    match (Write.store group name delta).run s with
    | .ok _ _ => [⟨group, name, delta⟩]
    | .error _ _ => []
  | reset group name =>
    match (Write.reset group name).run s with
    | .ok delta _ => if delta = 0 then [] else [⟨group, name, delta⟩]
    | .error _ _ => []
  | delete group name =>
    match (Write.delete group name).run s, Index.totalOf s.writer.transaction group name with
    | .ok _ _, .ok total => (Delta.clearing total).map (Delta.mk group name)
    | _, _ => []
  | _ => []

/-- The deltas of calls of one writer. -/
def allDeltas : List Call → Session → List Delta
  | [], _ => []
  | call :: rest, s => allDeltas rest (call.finish s) ++ call.deltas s

/-- The call leaves the slots of its node to deltas: it does not purge, and it does not write a
slot by the id of its node. -/
def sparesOwn : Call → Bool
  | purge => false
  | storeReplicated .. => false
  | _ => true

section Finish

variable {s : Session} {home : Node} {c : Catalog} {credited : List Delta}
variable (h : s.Shows home c.ledger) (hs : c.Sound) (hnode : home.serverId ≠ .nil)
variable (hcredited : c.Credited home.serverId credited)

include h hs hnode hcredited

/-- A store that is not refused adds its delta. -/
theorem credited_store (hroom : c.HasRoom 1) (group name : String) (delta : Int64) :
    ∃ c' : Catalog, ((store group name delta).finish s).Shows home c'.ledger ∧
      c'.Credited home.serverId ((store group name delta).deltas s ++ credited) := by
  rw [finish_of_discard s
    (rfl : (store group name delta).operation = discard (Write.store group name delta)), deltas,
    leaving, attempt]
  obtain ⟨total, htotal⟩ := Catalog.exists_totals h.trees group name
  rcases Write.counts_store_ends hs hnode (.start htotal h) hroom delta with
    ⟨_, s', hrun, hcounts⟩ | ⟨_, _, hrun, _, rfl⟩
  · rw [hrun]
    exact ⟨_, hcounts.shows, hcredited.credits hs hnode [⟨group, name, delta⟩] hroom⟩
  · rw [hrun]
    exact ⟨c, h, hcredited⟩

/-- A reset that is not refused adds the delta that it returns, unless that is zero. -/
theorem credited_reset (hn : c.AllNamed) (hroom : c.HasRoom 1) (group name : String) :
    ∃ c' : Catalog, ((reset group name).finish s).Shows home c'.ledger ∧
      c'.Credited home.serverId ((reset group name).deltas s ++ credited) := by
  rw [finish_of_discard s
    (rfl : (reset group name).operation = discard (Write.reset group name)), deltas, leaving,
    attempt]
  obtain ⟨total, htotal⟩ := Catalog.exists_totals h.trees group name
  rcases Write.counts_reset_ends hs hnode h hn hroom htotal with
    ⟨_, s', hrun, ⟨_, hmin⟩, rfl, hcounts⟩ | ⟨_, _, hrun, rfl⟩
  · have hdeltas : (if -total = 0 then [] else [⟨group, name, -total⟩]) =
        (Delta.clearing total).map (Delta.mk group name) := by
      rw [Delta.clearing_of_ne_minValue hmin]
      split <;> rfl
    rw [hrun]
    dsimp only
    rw [hdeltas]
    refine ⟨_, hcounts.shows, hcredited.credits hs hnode _ (hroom.mono ?_)⟩
    rw [List.length_map]
    exact Delta.length_clearing_le_one hmin
  · rw [hrun]
    exact ⟨c, h, hcredited⟩

/-- A deletion that is not refused adds the deltas that bring the total to zero. -/
theorem credited_delete (hn : c.AllNamed) (hroom : c.HasRoom 3) (group name : String) :
    ∃ c' : Catalog, ((delete group name).finish s).Shows home c'.ledger ∧
      c'.Credited home.serverId ((delete group name).deltas s ++ credited) := by
  rw [finish, deltas, leaving, attempt]
  obtain ⟨total, htotal⟩ := Catalog.exists_totals h.trees group name
  rcases Write.closes_delete_ends hs hnode h hn hroom htotal with
    ⟨_, s', hrun, hlive, hcloses⟩ | ⟨e, s', hrun, hsame⟩
  · have hrun' : (delete group name).operation.run s = .ok () s' := hrun
    rw [hrun, hrun', htotal.index_totalOf h.trees hlive]
    have hclear := hcredited.credits hs hnode ((Delta.clearing total).map (Delta.mk group name))
      (hroom.mono ?_)
    · -- The tombstone is no slot of the node.
      obtain ⟨hs', hroom'⟩ := Session.sound_clearing group name total hs hnode hroom
      exact ⟨_, hcloses.shows,
        hclear.spares (Catalog.spares_put hs' hroom' hnode (Ne.symm hnode) _ _)⟩
    · rw [List.length_map]
      exact (Delta.length_clearing_le total).trans (Nat.le_succ 2)
  · have hrun' : (delete group name).operation.run s = .error e s' := hrun
    rw [hrun, hrun', hsame]
    exact ⟨c, h, hcredited⟩

/-- A call adds its deltas to the slots of its node, and does nothing else to them. -/
theorem credited_finish (call : Call) (hn : c.AllNamed) (hroom : c.HasRoom call.writes)
    (hspares : call.sparesOwn = true) :
    ∃ c' : Catalog, (call.finish s).Shows home c'.ledger ∧
      c'.Credited home.serverId (call.deltas s ++ credited) := by
  -- A call that writes no slots leaves every slot as it is.
  have hquiet : call.writes = 0 → call ≠ purge → call.deltas s = [] →
      ∃ c' : Catalog, (call.finish s).Shows home c'.ledger ∧
        c'.Credited home.serverId (call.deltas s ++ credited) := by
    intro hwrites hpurge hnone
    obtain ⟨c', hevolves, _, hshows⟩ :=
      call.finish_of_leaves (call.leaves_operation h hs hroom hnode)
    rw [hwrites] at hevolves
    obtain ⟨hids, hcells⟩ := hevolves.same_counters hpurge
    rw [hnone]
    exact ⟨c', hshows, hcredited.spares (Catalog.spares_of_same_counters hids hcells)⟩
  cases call with
  | store group name delta => exact credited_store h hs hnode hcredited hroom group name delta
  | reset group name => exact credited_reset h hs hnode hcredited hn hroom group name
  | delete group name => exact credited_delete h hs hnode hcredited hn hroom group name
  | apply message =>
      obtain ⟨c', hspared, hshows⟩ := (apply message).finish_of_leaves
        (leaves_discard (Write.leaves_applyMessage_spares message h hs hroom hnode))
      exact ⟨c', hshows, hcredited.spares hspared⟩
  | recordPeerEtag serverId etag => exact hquiet rfl (fun heq => by cases heq) rfl
  | updateReplication document => exact hquiet rfl (fun heq => by cases heq) rfl
  | storeReplicated group name serverId sign value => cases hspares
  | purge => cases hspares

end Finish

end Call

/-- Two lists of deltas, the newest first: of those that were committed, and of those together with
the deltas of the open writer. -/
structure Accounts where
  committed : List Delta
  current : List Delta

namespace Stage

/-- The deltas of a call in the open writer. -/
def deltas (call : Call) : Stage → List Delta
  | idle _ => []
  | writing _ s => call.deltas s

end Stage

/-- The accounts after an event: a commit and a drop decide about the deltas of the writer. -/
def Accounts.after (accounts : Accounts) (stage : Stage) : Event → Accounts
  | .call call => { accounts with current := stage.deltas call ++ accounts.current }
  | .commit _ => ⟨accounts.current, accounts.current⟩
  | .drop => ⟨accounts.committed, accounts.committed⟩
  | _ => accounts

/-- The event leaves the slots of the node to deltas. -/
def Event.sparesOwn : Event → Bool
  | .call c => c.sparesOwn
  | _ => true

/-- The slots of this node hold the wrapped sums of these deltas. -/
def Transaction.Credited (t : Transaction) (own : ServerId) (deltas : List Delta) : Prop :=
  ∀ group name sign,
    Index.valueOf? t group name (.node own) sign = .ok (Delta.sum? group name sign deltas)

/-- The slots of this node hold the same values under the same etags. -/
def Transaction.SameOwn (own : ServerId) (t t' : Transaction) : Prop :=
  ∀ group name sign,
    Index.valueOf? t' group name (.node own) sign = Index.valueOf? t group name (.node own) sign ∧
    Index.etagOf? t' group name (.node own) sign = Index.etagOf? t group name (.node own) sign

theorem Catalog.Credited.transaction {c : Catalog} {own : ServerId} {deltas : List Delta}
    {t : Transaction} (h : c.Credited own deltas) (hshows : t.trees.Shows c.ledger) :
    t.Credited own deltas := by
  intro group name sign
  rw [Catalog.index_valueOf? hshows]
  exact congrArg Except.ok (h group name sign)

theorem Catalog.Spares.transaction {c c' : Catalog} {own : ServerId} {t t' : Transaction}
    (h : c.Spares own c') (hshows : t.trees.Shows c.ledger) (hshows' : t'.trees.Shows c'.ledger) :
    t.SameOwn own t' := by
  intro group name sign
  have hslot := h ⟨group, name, own, sign⟩ rfl
  constructor
  · rw [Catalog.index_valueOf? hshows, Catalog.index_valueOf? hshows']
    exact congrArg (fun cell => Except.ok (cell.map Cell.value)) hslot
  · rw [Catalog.index_etagOf? hshows, Catalog.index_etagOf? hshows']
    exact congrArg (fun cell => Except.ok (cell.map Cell.etag)) hslot

namespace Stage

variable {stage stage' : Stage} {event : Event} {accounts : Accounts} {base cur : Catalog}

/-- The stages of a node that is not purged and whose slots are written by local calls and messages
only, with its accounts. -/
inductive Accounted : Stage → Accounts → Prop where
  | start {opening : Opening} {store : Store} (h : opening.start .empty = .ok store)
      (hfresh : opening.fresh ≠ .nil) : Accounted (idle store) ⟨[], []⟩
  | step {stage stage' : Stage} {event : Event} {accounts : Accounts}
      (h : Accounted stage accounts) (hstep : Step stage event stage')
      (hspares : event.sparesOwn = true) : Accounted stage' (accounts.after stage event)

/-- A stage belongs to the same node for ever. -/
theorem Step.serverId_eq (hstep : Step stage event stage') (h : stage.Presents base cur) :
    stage'.node.serverId = stage.node.serverId := by
  obtain ⟨base', cur', hpresents', hmoves⟩ := hstep.presents h
  have hr' := hpresents'.keeps.records
  cases hmoves with
  | commit notify =>
      cases hstep with
      | commit =>
          obtain ⟨_, hr, _⟩ := h.carries
          exact hr'.unique hr
  | _ => exact hr'.unique h.keeps.records

/-- The catalogs of a stage hold its accounts in the slots of its node. -/
structure Credited (stage : Stage) (accounts : Accounts) (base cur : Catalog) : Prop where
  presents : stage.Presents base cur
  committed : base.Credited stage.node.serverId accounts.committed
  current : cur.Credited stage.node.serverId accounts.current

theorem Step.credited (hstep : Step stage event stage') (hspares : event.sparesOwn = true)
    (h : stage.Credited accounts base cur) :
    ∃ base' cur', stage'.Credited (accounts.after stage event) base' cur' := by
  obtain ⟨base', cur', hpresents, hmoves⟩ := hstep.presents h.presents
  have hown := hstep.serverId_eq h.presents
  refine ⟨base', cur', hpresents, ?_, ?_⟩
  · rw [hown]
    cases hmoves with
    | commit notify => exact h.current
    | _ => exact h.committed
  · rw [hown]
    cases hmoves with
    | @call _ _ _ call hroom hevolves hnamed =>
        cases hstep with
        | @call engine s _ _ _ =>
            obtain ⟨hs, _, home, hcommitted, hshows⟩ := h.presents.carries
            obtain ⟨_, _, _, _, hshows'⟩ := hpresents.carries
            have hcurrent := h.current
            have hhome : (writing engine s).node.serverId = home.serverId := hshows.serverId_eq
            rw [hhome] at hcurrent ⊢
            obtain ⟨c', hshows'', hcredited⟩ := call.credited_finish hshows hs hcommitted.serverId
              hcurrent h.presents.named_cur hroom hspares
            rw [hshows'.catalog_unique hshows'']
            exact hcredited
    | commit notify => exact h.current
    | drop => exact h.committed
    | _ => exact h.current

theorem Accounted.credited (h : Accounted stage accounts) :
    ∃ base cur, stage.Credited accounts base cur := by
  induction h with
  | start hstart hfresh =>
      exact ⟨_, _, .start hstart hfresh, Catalog.initial_credited _, Catalog.initial_credited _⟩
  | step h hstep hspares ih =>
      obtain ⟨base, cur, hcredited⟩ := ih
      exact hstep.credited hspares hcredited

/-- A message that is applied, or fails half-way, leaves the slots of the node as they are. -/
theorem Step.spares_of_apply {message : Message}
    (hstep : Step stage (.call (.apply message)) stage') (h : stage.Presents base cur) :
    stage.transaction.SameOwn stage.node.serverId stage'.transaction := by
  obtain ⟨_, cur', hpresents', hmoves⟩ := hstep.presents h
  cases hmoves with
  | @call _ _ _ call hroom _ _ =>
      have htransaction := h.transaction_shows
      have htransaction' := hpresents'.transaction_shows
      cases hstep with
      | @call engine s _ _ _ =>
          obtain ⟨hs, _, home, hcommitted, hshows⟩ := h.carries
          obtain ⟨_, _, _, _, hshows'⟩ := hpresents'.carries
          have hhome : (writing engine s).node.serverId = home.serverId := hshows.serverId_eq
          obtain ⟨c', hspares, hshows''⟩ := (Call.apply message).finish_of_leaves
            (Call.leaves_discard
              (Write.leaves_applyMessage_spares message hshows hs hroom hcommitted.serverId))
          obtain rfl : cur' = c' := hshows'.catalog_unique hshows''
          rw [hhome]
          exact hspares.transaction htransaction htransaction'

/-- A commit shows readers the slots of the node as the writer has left them. -/
theorem Step.spares_of_commit {notify : Bool} (hstep : Step stage (.commit notify) stage')
    (h : stage.Presents base cur) :
    stage.transaction.SameOwn stage.node.serverId stage'.reader := by
  obtain ⟨_, _, hpresents', hmoves⟩ := hstep.presents h
  cases hmoves
  exact (Catalog.Spares.refl _ cur).transaction h.transaction_shows hpresents'.reader_shows

/-- On a node that is not purged, readers find the wrapped sums of its committed deltas in its own
slots, and the open writer those of all its deltas. A message, whatever it says and however it ends,
changes neither a value nor an etag of them, and a commit shows them to readers as they are. -/
theorem Accounted.own_slots (h : Accounted stage accounts) :
    stage.reader.Credited stage.node.serverId accounts.committed ∧
    stage.transaction.Credited stage.node.serverId accounts.current ∧
    (∀ message stage', Step stage (.call (.apply message)) stage' →
      stage.transaction.SameOwn stage.node.serverId stage'.transaction) ∧
    ∀ notify stage', Step stage (.commit notify) stage' →
      stage.transaction.SameOwn stage.node.serverId stage'.reader := by
  obtain ⟨base, cur, hcredited⟩ := h.credited
  exact ⟨hcredited.committed.transaction hcredited.presents.reader_shows,
    hcredited.current.transaction hcredited.presents.transaction_shows,
    fun _ _ hstep => hstep.spares_of_apply hcredited.presents,
    fun _ _ hstep => hstep.spares_of_commit hcredited.presents⟩

/-- Calls of one writer add their deltas one after another. -/
theorem Accounted.calls {engine : Engine} (calls : List Call) {s : Session} {c : Catalog}
    (h : Accounted (writing engine s) accounts) (hholds : (writing engine s).Holds c)
    (hroom : c.HasRoom (calls.map Call.writes).sum)
    (hspares : ∀ call ∈ calls, call.sparesOwn = true) :
    Accounted (writing engine (calls.foldl (fun s call => call.finish s) s))
      ⟨accounts.committed, Call.allDeltas calls s ++ accounts.current⟩ := by
  induction calls generalizing s accounts c with
  | nil => exact h
  | cons call rest ih =>
      rw [List.map_cons, List.sum_cons] at hroom
      obtain ⟨hstep, c', hholds', hroom'⟩ := hholds.call hroom
      have hrest := ih (h.step hstep (hspares call List.mem_cons_self)) hholds' hroom'
        fun call' hcall' => hspares call' (.tail _ hcall')
      rw [Call.allDeltas, List.append_assoc]
      exact hrest

/-- A counter that is counted up and down, and deleted at a total of three. -/
def upAndDown : List Call :=
  [.store "group" "name" 5, .store "group" "name" (-2), .delete "group" "name"]

/-- A message that names a slot of the node with a value of its own, revives the counter, deletes it
again, and fails at its last entry. -/
def forgery : Message where
  serverId := .ofByte 9
  entries :=
    [⟨"group", "name", plainOpening.fresh, .positive, 100, 7⟩,
      ⟨"group", "name", .ofByte 8, .negative, 3, 8⟩,
      ⟨"group", "name", .nil, .negative, 50, 9⟩,
      ⟨"", "name", .ofByte 8, .positive, 1, 10⟩]

theorem own_slots_of_forgery : ∃ (engine : Engine) (s s' : Session) (e : Error)
    (accounts : Accounts), Accounted (writing engine s) accounts ∧
    accounts.current =
      [⟨"group", "name", -3⟩, ⟨"group", "name", -2⟩, ⟨"group", "name", 5⟩] ∧
    s.node.serverId = plainOpening.fresh ∧
    (Write.applyMessage forgery).run s = .error e s' ∧
    s.writer.transaction.Credited plainOpening.fresh accounts.current ∧
    s.writer.transaction.SameOwn plainOpening.fresh s'.writer.transaction ∧
    Index.valueOf? s'.writer.transaction "group" "name" (.node plainOpening.fresh) .positive =
      .ok (some 5) ∧
    Index.valueOf? s'.writer.transaction "group" "name" (.node plainOpening.fresh) .negative =
      .ok (some 5) := by
  obtain ⟨store, hstart, hholds⟩ :=
    Opening.exists_start_empty (rfl : plainOpening.config.validate = .ok ()) (by decide) (by decide)
  have hopen := store.node.openWriter_of_unlocked hholds.unlocked
  have hopened := (Accounted.start hstart (by decide)).step (.openWriter hopen) rfl
  have hzero : (0 : UInt64).toNat + (upAndDown.map Call.writes).sum < UInt64.size := by decide
  have hcalls : Accounted (writing _ _) ⟨[], _ ++ []⟩ :=
    hopened.calls upAndDown (c := .initial plainOpening.fresh)
      ⟨hholds.keeps.sound, hholds.keeps.records, store.node, _, hholds.keeps,
        hholds.keeps.shows_firstWriter⟩ ⟨hzero, hzero⟩ (by decide)
  have hfacts : (match plainOpening.start .empty with
      | .ok store =>
          let s₀ : Session := ⟨store.node, store.node.firstWriter store.engine.committed⟩
          let s := upAndDown.foldl (fun s call => call.finish s) s₀
          decide (Call.allDeltas upAndDown s₀ =
              [⟨"group", "name", -3⟩, ⟨"group", "name", -2⟩, ⟨"group", "name", 5⟩] ∧
            s.node.serverId = plainOpening.fresh ∧ s.writer.lastEtag = 4 ∧
            s.writer.lastCounterId = 1 ∧
            ¬ Returns (Write.applyMessage forgery) s fun _ _ => True)
      | .error _ => false) = true := by decide +kernel
  rw [hstart] at hfacts
  dsimp only at hfacts
  rw [decide_eq_true_eq] at hfacts
  obtain ⟨hdeltas, hserver, hetag, hcounterId, hfails⟩ := hfacts
  rw [List.append_nil, hdeltas] at hcalls
  cases hrun : (Write.applyMessage forgery).run _ with
  | ok outcome s' => exact absurd ⟨outcome, s', hrun, trivial⟩ hfails
  | error e s' =>
      obtain ⟨_, hcredited, hspares, _⟩ := hcalls.own_slots
      have hfinish : (Call.apply forgery).finish _ = s' :=
        Call.finish_apply_eq (.inr ⟨e, s', hrun, rfl⟩)
      have hsame := hspares forgery _
        (.call (.apply forgery) (by rw [hetag]; decide) (by rw [hcounterId]; decide))
      rw [hfinish] at hsame
      have hnode : (writing { store.engine with locked := true } _).node.serverId =
          plainOpening.fresh := hserver
      rw [hnode] at hcredited hsame
      refine ⟨_, _, s', e, _, hcalls, rfl, hserver, hrun, hcredited, hsame, ?_, ?_⟩
      · exact (hsame "group" "name" .positive).1.trans (hcredited "group" "name" .positive)
      · exact (hsame "group" "name" .negative).1.trans (hcredited "group" "name" .negative)

end Stage

end CounterMesh
