import CounterMesh.Proofs.Replication.Absorb
import CounterMesh.Proofs.Store.Follows
import CounterMesh.Replication.Apply

/-!
# Applying messages to a catalog

A message is applied entry by entry, as its catalog absorbs them. One that fails
leaves what the entries before did. The cursor for the sender moves last, and
never backwards.
-/

namespace CounterMesh

namespace Catalog

theorem index_lastEtagFor {t : Transaction} {c : Catalog} (h : t.trees.Shows c.ledger)
    (serverId : ServerId) : Index.lastEtagFor t serverId = .ok (c.cursorFor serverId) := by
  obtain ⟨found, hget, hfound⟩ := Transaction.get_of_shows h .cursors serverId
  have hget' : t.get Layout.peerEtags serverId.bytes = .ok (found.map Word.big) := hget
  have hcursor : c.cursors serverId = found := Option.ext fun etag => (hfound etag).symm
  rw [Index.lastEtagFor, hget', cursorFor, hcursor]
  cases found with
  | none => rfl
  | some etag => exact Stored.word_big Layout.peerEtags etag

end Catalog

/-- The outcome counts the entries that were put and those that were passed over. -/
structure Applied.Counts (outcome : Applied) (own : ServerId) (c : Catalog)
    (entries : List FeedEntry) : Prop where
  applied : outcome.applied = c.written own entries
  all : outcome.applied + outcome.skipped = entries.length

namespace Write

variable {s : Session} {home : Node} {c : Catalog} {purge : Prop} {k : Nat}

theorem returns_alreadyApplied (h : s.Shows home c.ledger) (e : FeedEntry) :
    Returns (alreadyApplied e) s fun skip s' => skip = c.knows home.serverId e ∧ s' = s := by
  refine returns_serverId.bind ?_
  rintro _ s' ⟨rfl, rfl⟩
  rw [h.serverId_eq]
  by_cases hown : e.serverId = home.serverId
  · rw [if_pos hown]
    exact .pure ⟨(Catalog.knows_iff.2 (.inl hown)).symm, rfl⟩
  · rw [if_neg hown]
    have hfound : Index.valueOf? s'.writer.transaction e.group e.name (.ofServer e.serverId)
        e.sign = .ok ((c.slot e.slotName).map Cell.value) := by
      rw [Catalog.index_valueOf? h.trees, Owner.server_ofServer]
      rfl
    refine (returns_query hfound).bind ?_
    rintro _ s' ⟨rfl, rfl⟩
    by_cases hvalue : (c.slot e.slotName).map Cell.value = some e.value
    · rw [if_pos hvalue]
      refine (returns_query (Catalog.index_liveId? h.trees)).bind ?_
      rintro _ s' ⟨rfl, rfl⟩
      refine .pure ⟨?_, rfl⟩
      simp [Catalog.knows, hown, hvalue]
    · rw [if_neg hvalue]
      refine .pure ⟨?_, rfl⟩
      simp [Catalog.knows, hown, hvalue]

/-- The trees of the writer present what the catalog has absorbed, counters with names only if there
were no others before. -/
def Took (s : Session) (home : Node) (c : Catalog) (entries : List FeedEntry) : Prop :=
  (c.AllNamed → (c.absorb home.serverId entries).AllNamed) ∧
    s.Shows home (c.absorb home.serverId entries).ledger

theorem Took.cons {e : FeedEntry} {rest : List FeedEntry}
    (h : Took s home (c.receive home.serverId e) rest)
    (hn : c.AllNamed → (c.receive home.serverId e).AllNamed) : Took s home c (e :: rest) :=
  ⟨fun hc => h.1 (hn hc), h.2⟩

/-- Entries that are applied are absorbed. Only an entry of a counter without a name fails, and it
leaves what the entries before did. -/
theorem applyEntries_ends (entries : List FeedEntry) (h : s.Shows home c.ledger) (hs : c.Sound)
    (hroom : c.HasRoom entries.length) :
    Ends (applyEntries entries) s
      (fun outcome s' => outcome.Counts home.serverId c entries ∧ Took s' home c entries)
      fun s' => (∃ e ∈ entries, ¬ Named e.group e.name) ∧ ∃ front, front <+: entries ∧
        Took s' home c front := by
  induction entries generalizing s c with
  | nil => exact .inl (.pure ⟨⟨rfl, rfl⟩, id, h⟩)
  | cons e rest ih =>
      rw [List.length_cons] at hroom
      refine (returns_alreadyApplied h e).bind_ends ?_
      rintro _ s' ⟨rfl, rfl⟩
      have hevolves : Catalog.Evolves False 1 c (c.receive home.serverId e) :=
        Catalog.evolves_receive (.refl 0 c) home.serverId e
      have hrest : (c.AllNamed → (c.receive home.serverId e).AllNamed) → ∀ s₁ : Session,
          s₁.Shows home (c.receive home.serverId e).ledger →
          Ends (applyEntries rest) s₁
            (fun outcome s' => outcome.Counts home.serverId (c.receive home.serverId e) rest ∧
              Took s' home c (e :: rest))
            fun s' => (∃ e' ∈ e :: rest, ¬ Named e'.group e'.name) ∧ ∃ front, front <+: e :: rest ∧
              Took s' home c front := by
        intro hn s₁ h₁
        refine (ih h₁ (hevolves.sound hs (hroom.mono (by omega)))
          (hevolves.hasRoom (hroom.mono (by omega)))).mono ?_ ?_
        · rintro outcome s₂ ⟨hcounts, htook⟩
          exact ⟨hcounts, htook.cons hn⟩
        · rintro s₂ ⟨⟨e', he', hunnamed⟩, front, hfront, htook⟩
          exact ⟨⟨e', .tail _ he', hunnamed⟩, e :: front, List.cons_prefix_cons.2 ⟨rfl, hfront⟩,
            htook.cons hn⟩
      cases hknows : c.knows home.serverId e with
      | true =>
          have hsame := Catalog.receive_of_knows hknows
          refine (hrest (by rw [hsame]; exact id) s' (by rwa [hsame])).bind ?_
          rintro outcome s₁ ⟨hcounts, htook⟩
          refine .inl (.pure ⟨⟨?_, ?_⟩, htook⟩)
          · simpa [Catalog.written, hknows] using hcounts.applied
          · exact congrArg (· + 1) hcounts.all
      | false =>
          have hwrite := storeReplicated_ends h hs (hroom.mono (by omega)) e.group e.name e.serverId
            e.sign e.value
          have hput := Catalog.receive_of_not_knows hknows
          rw [← hput] at hwrite
          refine (hwrite.mono (fun _ _ => id) ?_).bind ?_
          · rintro _ ⟨hunnamed, rfl⟩
            exact ⟨⟨e, List.mem_cons_self, hunnamed⟩, [], List.nil_prefix, id, h⟩
          · rintro _ s₁ ⟨hnamed, h₁⟩
            have hn : c.AllNamed → (c.receive home.serverId e).AllNamed := by
              intro hc
              rw [hput]
              exact hc.put hs (hroom.mono (by omega)) hnamed _ _ _
            refine (hrest hn s₁ h₁).bind ?_
            rintro outcome s₂ ⟨hcounts, htook⟩
            refine .inl (.pure ⟨⟨?_, ?_⟩, htook⟩)
            · rw [Catalog.written, hknows, if_neg Bool.false_ne_true, ← hcounts.applied]
              exact Nat.add_comm _ _
            · rw [List.length_cons, ← hcounts.all]
              exact Nat.add_right_comm _ _ _

/-- A message that is applied changes the catalog as `Catalog.apply` says; one that fails has an
entry of a counter without a name, and leaves what the entries before did. -/
theorem applyMessage_ends (message : Message) (h : s.Shows home c.ledger) (hs : c.Sound)
    (hroom : c.HasRoom message.entries.length) :
    Ends (applyMessage message) s
      (fun outcome s' => outcome.Counts home.serverId c message.entries ∧
        (c.AllNamed → (c.apply home.serverId message).AllNamed) ∧
          s'.Shows home (c.apply home.serverId message).ledger)
      fun s' => (∃ e ∈ message.entries, ¬ Named e.group e.name) ∧
        ∃ front, front <+: message.entries ∧ Took s' home c front := by
  refine (applyEntries_ends message.entries h hs hroom).bind ?_
  rintro outcome s₁ ⟨hcounts, hn, h₁⟩
  have hn' : c.AllNamed → (c.apply home.serverId message).AllNamed := by
    intro hc k cell hk
    rw [Catalog.slot_apply] at hk
    exact hn hc k cell hk
  cases hlast : message.lastEtag with
  | none =>
      have hnil := lastEtag_eq_none_iff.1 hlast
      refine .inl (.pure ⟨hcounts, hn', ?_⟩)
      rw [Catalog.apply, if_pos hnil]
      rwa [hnil] at h₁
  | some etag =>
      have hentries : message.entries ≠ [] := by
        intro hnil
        rw [lastEtag_eq_none_iff.2 hnil] at hlast
        cases hlast
      refine (returns_query (Catalog.index_lastEtagFor h₁.trees _)).bind_ends ?_
      rintro _ s₂ ⟨rfl, rfl⟩
      refine (returns_put h₁ .cursors message.serverId _).bind_ends fun _ s₃ h₃ => ?_
      refine .inl (.pure ⟨⟨hcounts.applied, hcounts.all⟩, hn', ?_⟩)
      rw [Catalog.apply, if_neg hentries, Catalog.ledger_setCursor, ← max_lastEtag hlast]
      rw [Catalog.cursorFor_absorb] at h₃
      exact h₃

/-- A message about counters with names is applied. -/
theorem returns_applyMessage (message : Message) (h : s.Shows home c.ledger) (hs : c.Sound)
    (hnamed : ∀ e ∈ message.entries, Named e.group e.name)
    (hroom : c.HasRoom message.entries.length) :
    Returns (applyMessage message) s fun outcome s' =>
      outcome.Counts home.serverId c message.entries ∧
        s'.Shows home (c.apply home.serverId message).ledger := by
  refine Returns.mono ((applyMessage_ends message h hs hroom).resolve_right ?_) ?_
  · rintro ⟨_, _, _, ⟨e, he, hunnamed⟩, _⟩
    exact hunnamed (hnamed e he)
  · exact fun _ _ h' => ⟨h'.1, h'.2.2⟩

/-- Every entry of a message is at most one write. -/
theorem leaves_applyMessage (message : Message) (h : s.Reached home purge c k)
    (hs : c.Sound) (hroom : c.HasRoom (k + message.entries.length)) :
    Leaves (applyMessage message) s fun s' =>
      s'.Reached home purge c (k + message.entries.length) := by
  obtain ⟨c', hevolves, hn, hshows⟩ := h
  refine (applyMessage_ends message hshows (hevolves.sound hs (hroom.mono (by omega)))
    (hevolves.hasRoom hroom)).mono ?_ ?_
  · rintro outcome s' ⟨_, hn', h'⟩
    exact ⟨_, Catalog.evolves_apply hevolves message, hn' ∘ hn, h'⟩
  · rintro s' ⟨_, front, hfront, hn', h'⟩
    have hle := hfront.length_le
    exact ⟨_, (Catalog.evolves_absorb hevolves).mono (by omega), hn' ∘ hn, h'⟩

theorem leaves_recordPeerEtag (h : s.Reached home purge c k) (serverId : ServerId)
    (etag : Etag) :
    Leaves (recordPeerEtag serverId etag) s fun s' => s'.Reached home purge c k := by
  obtain ⟨c', hevolves, hn, hshows⟩ := h
  refine (returns_put hshows .cursors serverId etag).leaves fun _ s' h' => ?_
  refine ⟨_, hevolves.cursor serverId etag, hn, ?_⟩
  rw [Catalog.ledger_setCursor]
  exact h'

theorem returns_updateReplication (h : s.Shows home c.ledger) (document : ReplicationDocument) :
    Returns (updateReplication document) s fun _ s' => s'.Shows home
      (c.setMetadata Layout.replicationKey (Bytes.ofText document.toJson.render)).ledger := by
  generalize htext : Bytes.ofText document.toJson.render = text
  have hput : Returns (mutate fun t => t.put Layout.metadata Layout.replicationKey text) s
      fun _ s' => s'.Shows home (c.setMetadata Layout.replicationKey text).ledger := by
    rw [Catalog.ledger_setMetadata]
    exact returns_put h .metadata Layout.replicationKey text
  rw [updateReplication, htext]
  refine hput.bind fun _ s₁ h₁ => returns_signal.mono ?_
  rintro _ _ rfl
  exact h₁.withSignal _

theorem leaves_updateReplication (h : s.Reached home purge c k)
    (document : ReplicationDocument) :
    Leaves (updateReplication document) s fun s' => s'.Reached home purge c k := by
  obtain ⟨c', hevolves, hn, hshows⟩ := h
  exact (returns_updateReplication hshows document).leaves fun _ _ h' =>
    ⟨_, hevolves.replication document, hn, h'⟩

end Write

end CounterMesh
