import CounterMesh.Proofs.Store.Changes
import CounterMesh.Proofs.Store.Purge
import CounterMesh.Proofs.Store.Runs

/-!
# Changes that a writer records

Nothing that a merge does to the trees touches the recorded changes, so that
every operation records what it tells and nothing else. A counter stays live
while deltas are stored, and each of them is recorded as an increment or a
decrement. Purges and the writes of cursors and documents record nothing, and
neither does an operation that fails, but for the entries of a message that
were written before.
-/

namespace CounterMesh

/-- The writer has recorded these changes; what was committed before and they together tell which
counters of its trees are live. -/
structure Session.Told (s : Session) (home : Node) (c : Catalog)
    (committed recorded : List Change) : Prop where
  shows : s.Shows home c.ledger
  changes : s.writer.changes = recorded
  told : c.Told (committed ++ recorded)

/-- Deltas of a live counter are recorded one after another. -/
structure Session.Announces (s : Session) (home : Node) (c : Catalog) (group name : String)
    (before : List Change) (amounts : List Int64) (total : Int64) : Prop where
  counts : s.Counts home c group name amounts total
  changes : s.writer.changes =
    before ++ amounts.reverse.map (Change.ofAmount group name home.serverId)

/-- Before its first delta. -/
theorem Session.Told.announces {s : Session} {home : Node} {c : Catalog} {group name : String}
    {committed recorded : List Change} {total : Int64} (h : s.Told home c committed recorded)
    (htotal : c.Totals group name total) : s.Announces home c group name recorded [] total :=
  ⟨.start htotal h.shows, h.changes.trans (List.append_nil _).symm⟩

namespace Session.Shows

variable {s : Session} {home : Node} {c : Catalog} {group name : String}

theorem changes_eq {L : Ledger} (h : s.Shows home L) : s.node.changes = home.changes := by
  rw [h.node]

theorem finds_iff (h : s.Shows home c.ledger) :
    s.finds group name = true ↔ c.Live group name := by
  rw [finds, Catalog.index_liveId? h.trees]
  exact Catalog.isSome_liveId?_iff

/-- A merge that tells whether the counter was live is recorded as what was written. -/
theorem written_eq (h : s.Shows home c.ledger) {existed : Bool}
    (hexisted : existed = true ↔ c.Live group name) (serverId : ServerId) (amount : Int64) :
    s.written group name serverId amount =
      ⟨group, name, Write.actionOf existed (Sign.ofDelta amount), serverId⟩ := by
  obtain rfl : existed = s.finds group name := by rw [Bool.eq_iff_iff, hexisted, h.finds_iff]
  rw [written]
  cases s.finds group name with
  | false => rfl
  | true =>
      rw [if_pos rfl, Change.ofAmount, ChangeAction.ofAmount, Sign.ofDelta]
      by_cases hneg : amount < 0
      · rw [if_pos hneg, if_neg (Int64.not_le.2 hneg)]
        rfl
      · rw [if_neg hneg, if_pos (Int64.not_lt.1 hneg)]
        rfl

end Session.Shows

namespace Write

variable {s : Session} {home : Node} {c : Catalog} {group name : String}
variable {committed recorded : List Change}

/-- A merge records nothing. -/
theorem merge_keeps_changes (group name : String) (owner : Owner) (sign : Sign)
    (write : SlotWrite) (s : Session) :
    Ends (merge group name owner sign write) s
      (fun _ s' => s'.writer.changes = s.writer.changes) fun _ => True :=
  Ends.mono (preserves_merge aside_changes write s) (fun _ _ => id) fun _ _ => trivial

/-- The last step of a write records the action that it answers. -/
theorem record_answers (action : ChangeAction) (serverId : ServerId) {before : List Change}
    (h : s.writer.changes = before) :
    Ends (do
        record ⟨group, name, action, serverId⟩
        return action) s
      (fun action s' => s'.writer.changes = before ++ [⟨group, name, action, serverId⟩])
      fun _ => True := by
  refine (returns_record _).bind_ends ?_
  rintro _ _ rfl
  exact .inl (.pure (congrArg (· ++ _) h))

/-- A store records its answer. -/
theorem records_store (delta : Int64) : Ends (store group name delta) s
    (fun action s' =>
      s'.writer.changes = s.writer.changes ++ [⟨group, name, action, s.node.serverId⟩])
    fun _ => True := by
  refine Ends.bind ((checkNames_ends group name).mono (fun _ _ => And.right)
    fun _ _ => trivial) ?_
  rintro _ _ rfl
  by_cases hdelta : delta = Int64.minValue
  · rw [if_pos hdelta]
    exact .inr ⟨_, Fails.bind ⟨_, rfl, trivial⟩⟩
  · rw [if_neg hdelta]
    refine returns_serverId.bind_ends ?_
    rintro _ s ⟨rfl, rfl⟩
    refine (merge_keeps_changes group name _ _ _ _).bind ?_
    exact fun existed s₁ hsame => record_answers _ _ hsame

/-- A replicated write records its answer. -/
theorem records_storeReplicated (serverId : ServerId) (sign : Sign) (value : Int64) :
    Ends (storeReplicated group name serverId sign value) s
      (fun action s' =>
        s'.writer.changes = s.writer.changes ++ [⟨group, name, action, serverId⟩])
      fun _ => True := by
  refine Ends.bind ((checkNames_ends group name).mono (fun _ _ => And.right)
    fun _ _ => trivial) ?_
  rintro _ _ rfl
  cases Owner.ofServer serverId with
  | tombstone =>
      refine (merge_keeps_changes group name _ _ _ _).bind fun _ s₁ hsame => ?_
      rw [pure_bind]
      exact record_answers _ _ hsame
  | node serverId =>
      refine (merge_keeps_changes group name _ _ _ _).bind fun existed s₁ hsame => ?_
      rw [pure_bind]
      exact record_answers _ _ hsame

/-- The tombstone of a deletion is recorded as the deletion. -/
theorem records_tombstone (s : Session) :
    Ends (do
        let ticks := ticksOf (← now)
        let _ ← merge group name .tombstone .positive (.tombstone ticks)
        record ⟨group, name, .delete, .nil⟩) s
      (fun _ s' => s'.writer.changes = s.writer.changes ++ [.deletion group name])
      fun _ => True := by
  refine returns_now.bind_ends ?_
  rintro _ _ ⟨rfl, rfl⟩
  refine (merge_keeps_changes group name _ _ _ _).bind ?_
  intro _ s₁ hsame
  refine .inl ((returns_record _).mono ?_)
  rintro _ _ rfl
  exact congrArg (· ++ _) hsame

/-- A replicated write of a node tells whether it found the counter live, and one under the reserved
id that the counter is deleted. -/
theorem told_storeReplicated_ends (h : s.Told home c committed recorded) (hs : c.Sound)
    (hroom : c.HasRoom 1) (group name : String) (serverId : ServerId) (sign : Sign)
    (value : Int64) :
    Ends (storeReplicated group name serverId sign value) s
      (fun _ s' => s'.Told home (c.put group name serverId (sign.under serverId) value) committed
        (recorded ++ [s.replicated group name serverId value]))
      fun s' => s' = s := by
  refine ((storeReplicated_acts h.shows hs hroom group name serverId sign value).and
    (records_storeReplicated serverId sign value)).mono ?_ fun _ hfail => hfail.1.2
  rintro action s' ⟨⟨_, ⟨existed, hexisted, rfl⟩, hshows⟩, hrecorded⟩
  rw [h.changes] at hrecorded
  by_cases hserver : serverId = .nil
  · subst hserver
    refine ⟨hshows, hrecorded, ?_⟩
    rw [← List.append_assoc, Sign.under_nil sign rfl]
    exact h.told.put_tombstone hs hroom
  · rw [if_neg hserver, ← h.shows.written_eq hexisted] at hrecorded
    rw [Session.replicated, if_neg hserver]
    refine ⟨hshows, hrecorded, ?_⟩
    rw [← List.append_assoc]
    exact h.told.put_node hs hroom hserver (s.written_about ..)

section Local

variable (hs : c.Sound) (hnode : home.serverId ≠ .nil)

include hs hnode

/-- A store tells whether it found the counter live. -/
theorem told_store_ends (h : s.Told home c committed recorded) (hroom : c.HasRoom 1)
    (delta : Int64) :
    Ends (store group name delta) s
      (fun _ s' => ∃ c', s'.Told home c' committed
        (recorded ++ [s.written group name s.node.serverId delta]))
      fun s' => s' = s := by
  refine ((store_ends h.shows hs hroom hnode group name delta).and (records_store delta)).mono ?_
    fun _ hfail => hfail.1.2
  rintro action s' ⟨⟨_, ⟨existed, hexisted, rfl⟩, hshows⟩, hrecorded⟩
  rw [h.changes, ← h.shows.written_eq hexisted] at hrecorded
  refine ⟨_, hshows, hrecorded, ?_⟩
  rw [← List.append_assoc]
  exact h.told.put_node hs hroom hnode (s.written_about ..)

variable {before : List Change}

/-- Every store of a live counter announces its delta. -/
theorem extends_announces (hn : c.AllNamed) (hlive : c.Live group name) {limit : Nat}
    (hroom : c.HasRoom limit) :
    Extends group name limit fun amounts total s =>
      s.Announces home c group name before amounts total := by
  intro amounts total delta s h hlt hdelta
  obtain ⟨hs', hroom'⟩ := hs.credits hnode (amounts.map (Delta.mk group name))
    (List.length_map _).le (hroom.mono hlt)
  have hcounts := counts_store hs hnode h.counts (hroom.mono hlt) (hn.live hs hlive) hdelta
  have hacts := store_ends h.counts.shows hs' hroom' hnode group name delta
  refine ((hcounts.and_ends hacts).and_ends (records_store delta)).mono ?_
  rintro action s' ⟨⟨hcounts', _, ⟨existed, hexisted, rfl⟩, _⟩, hrecorded⟩
  refine ⟨hcounts', ?_⟩
  have hfound := h.counts.shows.finds_iff.2 (Catalog.live_credits hnode hlive amounts)
  rw [← h.counts.shows.written_eq hexisted, Session.written, if_pos hfound, h.changes,
    h.counts.shows.serverId_eq] at hrecorded
  rw [hrecorded, List.reverse_cons, List.map_append, ← List.append_assoc]
  rfl

/-- A reset tells of the delta that it returns, unless that is zero. -/
theorem told_reset_ends (h : s.Told home c committed recorded) (hn : c.AllNamed)
    (hroom : c.HasRoom 1) :
    Ends (reset group name) s
      (fun delta s' => ∃ c', s'.Told home c' committed
        (recorded ++ if delta = 0 then [] else [.ofAmount group name s.node.serverId delta]))
      fun s' => s' = s := by
  by_cases hlive : c.Live group name
  · obtain ⟨total, htotal⟩ := Catalog.exists_totals h.shows.trees group name
    by_cases hmin : total = Int64.minValue
    · subst hmin
      exact .inr ⟨_, (refuses_reset h.shows hlive htotal).fails rfl⟩
    · refine .inl ((returns_reset_of_extends h.shows hlive htotal
        (extends_announces hs hnode hn hlive hroom) hmin (h.announces htotal)).mono ?_)
      rintro _ s' ⟨rfl, h'⟩
      have hnews : (Delta.clearing total).reverse.map (Change.ofAmount group name home.serverId) =
          if -total = 0 then [] else [.ofAmount group name home.serverId (-total)] := by
        rw [Delta.clearing_of_ne_minValue hmin]
        split <;> rfl
      rw [h.shows.serverId_eq, ← hnews]
      refine ⟨_, h'.counts.shows, h'.changes, ?_⟩
      rw [← List.append_assoc]
      exact h.told.credits hs hnode _ (hroom.mono (Delta.length_clearing_le_one hmin))
  · exact .inr ⟨_, ((refuses_checkLive h.shows hlive).bind).fails rfl⟩

/-- A deletion tells of the deltas that bring the total to zero, and then of itself. -/
theorem told_delete_ends (h : s.Told home c committed recorded) (hn : c.AllNamed)
    (hroom : c.HasRoom 3) :
    Ends (delete group name) s
      (fun _ s' => ∃ c', s'.Told home c' committed
        (recorded ++ ((Delta.clearing (s.totalOf group name)).reverse.map
          (Change.ofAmount group name s.node.serverId) ++ [.deletion group name])))
      fun s' => s' = s := by
  by_cases hlive : c.Live group name
  · obtain ⟨total, htotal⟩ := Catalog.exists_totals h.shows.trees group name
    have hfound : s.totalOf group name = total := by
      rw [Session.totalOf, htotal.index_totalOf h.shows.trees hlive]
    rw [h.shows.serverId_eq, hfound, ← List.append_assoc]
    refine .inl (returns_delete_of_extends h.shows hlive htotal
      (extends_announces hs hnode hn hlive (hroom.mono (Nat.le_succ 2))) (h.announces htotal) ?_)
    intro s₁ h₁
    refine ((closes_tombstone hs hnode h₁.counts hroom).and_ends (records_tombstone s₁)).mono ?_
    rintro _ s' ⟨hcloses, hrecorded⟩
    rw [h₁.changes] at hrecorded
    obtain ⟨hs', hroom'⟩ := Session.sound_clearing group name total hs hnode hroom
    refine ⟨_, hcloses.shows, hrecorded, ?_⟩
    rw [← List.append_assoc, ← List.append_assoc]
    exact (h.told.credits hs hnode _ (hroom.mono ((Delta.length_clearing_le total).trans
      (by decide)))).put_tombstone hs' hroom'
  · exact .inr ⟨_, ((refuses_checkLive h.shows hlive).bind).fails rfl⟩

end Local

theorem told_recordPeerEtag (h : s.Told home c committed recorded) (serverId : ServerId)
    (etag : Etag) : Returns (recordPeerEtag serverId etag) s fun _ s' =>
      s'.Told home (c.setCursor serverId etag) committed recorded := by
  refine ((returns_put h.shows .cursors serverId etag).and_ends
    (preserves_put apart_changes (touches_of_ne (by decide) _) s)).mono ?_
  rintro _ s' ⟨hshows, hsame⟩
  refine ⟨?_, hsame.trans h.changes, h.told.congr rfl rfl⟩
  rw [Catalog.ledger_setCursor]
  exact hshows

theorem told_updateReplication (h : s.Told home c committed recorded)
    (document : ReplicationDocument) : Returns (updateReplication document) s fun _ s' =>
      ∃ c', s'.Told home c' committed recorded := by
  have hpreserves : Preserves (fun s => s.writer.changes) (updateReplication document) :=
    (preserves_mutate fun _ _ _ => rfl).bind fun _ => preserves_signal aside_changes
  refine ((returns_updateReplication h.shows document).and_ends (hpreserves s)).mono ?_
  rintro _ s' ⟨hshows, hsame⟩
  exact ⟨_, hshows, hsame.trans h.changes, h.told.congr rfl rfl⟩

/-- A purge tells nothing: the counters that it removes were not live. -/
theorem told_purgeBatch (h : s.Told home c committed recorded) (hs : c.Sound) :
    Returns purgeBatch s fun _ s' => ∃ c', s'.Told home c' committed recorded := by
  refine ((forgets_purgeBatch h.shows hs).and_ends (leaves_purgeBatch apart_changes s)).mono ?_
  rintro _ s' ⟨⟨c', hforgets, hshows⟩, hsame⟩
  exact ⟨c', hshows, hsame.trans h.changes, h.told.forgets hforgets⟩

/-- Entries tell of the replicated writes that they are, also if one of them fails. -/
theorem told_applyEntries (entries : List FeedEntry) (h : s.Told home c committed recorded)
    (hs : c.Sound) (hroom : c.HasRoom entries.length) :
    Leaves (applyEntries entries) s fun s' =>
      ∃ c', s'.Told home c' committed (recorded ++ tidings entries s) := by
  induction entries generalizing s c recorded with
  | nil =>
      refine .pure ⟨c, ?_⟩
      rw [tidings, List.append_nil]
      exact h
  | cons e rest ih =>
      rw [List.length_cons] at hroom
      obtain ⟨skip, s, hskip, _, rfl⟩ := returns_alreadyApplied h.shows e
      have hskips : Returns (alreadyApplied e) s fun skip' s' => skip' = skip ∧ s' = s :=
        ⟨skip, s, hskip, rfl, rfl⟩
      refine hskips.bind_leaves ?_
      rintro skip s ⟨rfl, rfl⟩
      cases skip with
      | true =>
          have htidings : tidings (e :: rest) s = tidings rest s := by
            rw [tidings]
            simp only [hskip]
          rw [htidings]
          exact (ih h hs (hroom.mono (Nat.le_succ _))).bind (fun _ => id) fun _ _ h' => .pure h'
      | false =>
          rcases told_storeReplicated_ends h hs (hroom.mono (by omega)) e.group e.name e.serverId
            e.sign e.value with ⟨action, s₁, hrun, h₁⟩ | ⟨_, s, hrun, rfl⟩
          · have htidings : tidings (e :: rest) s =
                [s.replicated e.group e.name e.serverId e.value] ++ tidings rest s₁ := by
              rw [tidings]
              simp only [hskip, hrun]
              rfl
            have hwrites : Returns (storeReplicated e.group e.name e.serverId e.sign e.value) s
                fun _ s' => s' = s₁ := ⟨action, s₁, hrun, rfl⟩
            have hevolves : Catalog.Evolves False 1 c _ :=
              (Catalog.Evolves.refl 0 c).put e.group e.name e.serverId
                (e.sign.under e.serverId) e.value (Sign.under_nil e.sign)
            rw [htidings, ← List.append_assoc]
            refine hwrites.bind_leaves ?_
            rintro _ _ rfl
            exact (ih h₁ (hevolves.sound hs (hroom.mono (by omega)))
              (hevolves.hasRoom (hroom.mono (by omega)))).bind (fun _ => id) fun _ _ h' => .pure h'
          · have htidings : tidings (e :: rest) s = [] := by
              rw [tidings]
              simp only [hskip, hrun]
            rw [htidings, List.append_nil]
            exact (Fails.bind ⟨s, hrun, c, h⟩).leaves

theorem told_applyMessage (message : Message) (h : s.Told home c committed recorded)
    (hs : c.Sound) (hroom : c.HasRoom message.entries.length) :
    Leaves (applyMessage message) s fun s' =>
      ∃ c', s'.Told home c' committed (recorded ++ tidings message.entries s) := by
  refine (told_applyEntries message.entries h hs hroom).bind (fun _ => id) ?_
  rintro outcome s₁ ⟨c₁, h₁⟩
  cases message.lastEtag with
  | none => exact .pure ⟨c₁, h₁⟩
  | some etag =>
      refine (returns_query (Catalog.index_lastEtagFor h₁.shows.trees _)).bind_leaves ?_
      rintro _ s₁ ⟨rfl, rfl⟩
      exact (told_recordPeerEtag h₁ _ _).bind_leaves fun _ s₂ h₂ => .pure ⟨_, h₂⟩

/-- An operation that refuses a counter which is not live tells something only of a live one. -/
theorem telling_of_checkLive {α : Type} {next : Unit → Write α} (h : s.Shows home c.ledger)
    (news : α → List Change) :
    (if s.finds group name then telling (checkLive group name >>= next) news s else []) =
      telling (checkLive group name >>= next) news s := by
  by_cases hfound : s.finds group name = true
  · rw [if_pos hfound]
  · have hrefused : Refuses (checkLive group name >>= next) s _ :=
      (refuses_checkLive h (mt h.finds_iff.2 hfound)).bind
    rw [if_neg hfound, telling, hrefused]

/-- An operation tells what it says when it answers, and nothing when it fails without effect. -/
theorem told_of_ends {α : Type} {op : Write α} {news : α → List Change}
    (h : s.Told home c committed recorded)
    (hends : Ends op s (fun a s' => ∃ c', s'.Told home c' committed (recorded ++ news a))
      fun s' => s' = s) :
    ∃ c', (leaving op s).Told home c' committed (recorded ++ telling op news s) := by
  rw [leaving, attempt, telling]
  rcases hends with ⟨a, s', hrun, h'⟩ | ⟨e, s', hrun, rfl⟩
  · rw [hrun]
    exact h'
  · rw [hrun]
    exact ⟨c, by rwa [List.append_nil]⟩

end Write

/-- A call records what it tells, and the changes tell which counters it leaves live. -/
theorem Call.told_finish (call : Call) {s : Session} {home : Node} {c : Catalog}
    {committed recorded : List Change} (h : s.Told home c committed recorded) (hs : c.Sound)
    (hn : c.AllNamed) (hroom : c.HasRoom call.writes) (hnode : home.serverId ≠ .nil) :
    ∃ c', (call.finish s).Told home c' committed (recorded ++ call.news s) := by
  cases call with
  | store group name delta =>
      rw [finish_of_discard s
        (rfl : (store group name delta).operation = discard (Write.store group name delta))]
      exact Write.told_of_ends h (Write.told_store_ends hs hnode h hroom delta)
  | storeReplicated group name serverId sign value =>
      rw [finish_of_discard s
        (rfl : (storeReplicated group name serverId sign value).operation =
          discard (Write.storeReplicated group name serverId sign value))]
      exact Write.told_of_ends h ((Write.told_storeReplicated_ends h hs hroom group name serverId
        sign value).mono (fun _ _ h' => ⟨_, h'⟩) fun _ => id)
  | reset group name =>
      have hnews : (reset group name).news s = Write.telling (Write.reset group name) _ s :=
        Write.telling_of_checkLive h.shows _
      rw [hnews, finish_of_discard s
        (rfl : (reset group name).operation = discard (Write.reset group name))]
      exact Write.told_of_ends h (Write.told_reset_ends hs hnode h hn hroom)
  | delete group name =>
      have hnews : (delete group name).news s = Write.telling (Write.delete group name) _ s :=
        Write.telling_of_checkLive h.shows _
      rw [hnews, finish]
      exact Write.told_of_ends h (Write.told_delete_ends hs hnode h hn hroom)
  | apply message =>
      exact (apply message).finish_of_leaves (leaves_discard (Write.told_applyMessage message h hs
        hroom))
  | purge =>
      rw [news, List.append_nil]
      exact purge.finish_of_leaves (leaves_discard ((Write.told_purgeBatch h hs).leaves
        fun _ _ => id))
  | recordPeerEtag serverId etag =>
      rw [news, List.append_nil]
      exact ⟨_, (recordPeerEtag serverId etag).finish_of_leaves
        ((Write.told_recordPeerEtag h serverId etag).leaves fun _ _ => id)⟩
  | updateReplication document =>
      rw [news, List.append_nil]
      exact (updateReplication document).finish_of_leaves
        ((Write.told_updateReplication h document).leaves fun _ _ => id)

end CounterMesh
