import CounterMesh.Proofs.Store.Answers
import CounterMesh.Proofs.Store.Totals

/-!
# Refusals

A call checks its arguments before it changes anything, and no step behind these
checks can fail. What a call is refused for can therefore be told from its
arguments and from the trees it meets, and a call that is refused has done nothing.
Only a message may fail on its way, at an entry of a counter without a name.
-/

namespace CounterMesh

section FailsOnly

variable {σ α β : Type} {s : σ} {op : EStateM Error σ α} {next : α → EStateM Error σ β}
variable {mid : α → σ → Prop} {only : Error → Prop}

/-- Whatever the operation fails with is one of these errors. -/
def FailsOnly (op : EStateM Error σ α) (s : σ) (only : Error → Prop) : Prop :=
  ∀ e s', op.run s = .error e s' → only e

theorem Returns.failsOnly (h : Returns op s mid) : FailsOnly op s only := by
  intro e s' hrun
  obtain ⟨_, _, hrun', _⟩ := h
  cases hrun.symm.trans hrun'

theorem Refuses.failsOnly {e : Error} (h : Refuses op s e) (he : only e) :
    FailsOnly op s only := by
  intro e' s' hrun
  cases hrun.symm.trans h
  exact he

theorem Returns.bind_failsOnly (h : Returns op s mid)
    (hnext : ∀ a s', mid a s' → FailsOnly (next a) s' only) : FailsOnly (op >>= next) s only := by
  intro e s'' hrun
  obtain ⟨a, s', hrun', hmid⟩ := h
  rw [EStateM.run_bind, hrun'] at hrun
  exact hnext a s' hmid e s'' hrun

theorem FailsOnly.pure (a : α) : FailsOnly (Pure.pure a : EStateM Error σ α) s only := by
  intro e s' hrun
  cases hrun

theorem FailsOnly.bind (h : FailsOnly op s only)
    (hnext : ∀ a s', op.run s = .ok a s' → FailsOnly (next a) s' only) :
    FailsOnly (op >>= next) s only := by
  intro e s'' hrun
  rw [EStateM.run_bind] at hrun
  cases hop : op.run s with
  | ok a s' =>
      rw [hop] at hrun
      exact hnext a s' hop e s'' hrun
  | error e' s' =>
      rw [hop] at hrun
      cases hrun
      exact h e s'' hop

end FailsOnly

/-- The failure comes from the store, neither from its engine nor from damaged data. -/
def Error.IsRefusal (e : Error) : Prop := e.area = "counters" ∧ e.isCorruption = false

/-- The refusal of a counter without a name. -/
def namesRefusal? (group name : String) : Option Error :=
  (nameFault? group name).map fun fault => .counter (.invalidArgument fault)

/-- The refusal of a counter that is not live. -/
def Transaction.missing? (t : Transaction) (group name : String) : Option Error :=
  if Index.liveId? t group name = .ok none then some (.counter (.notFound group name)) else none

/-- What a call is refused for on these trees. -/
def Call.refusal? (t : Transaction) : Call → Option Error
  | store group name delta => (namesRefusal? group name).or
      (if delta = Int64.minValue then some (.counter (.deltaOutOfRange delta)) else none)
  | storeReplicated group name _ _ _ => namesRefusal? group name
  | reset group name => (t.missing? group name).or
      (if Index.totalOf t group name = .ok Int64.minValue then
        some (.counter (.deltaOutOfRange Int64.minValue))
      else none)
  | delete group name => t.missing? group name
  | _ => none

/-- A call of a writer is refused, with nothing done, for what its arguments and the trees tell, and
answers otherwise. A message is refused for nothing in advance; it may fail at an entry of a counter
without a name. -/
def Call.Conforms (call : Call) (s : Session) : Prop :=
  match call.refusal? s.writer.transaction with
  | some e => Refuses call.operation s e
  | none => Returns call.operation s (fun _ _ => True) ∨
      ∃ message, call = .apply message ∧ (∃ entry ∈ message.entries,
        ¬ Named entry.group entry.name) ∧
        ∃ fault s', call.operation.run s = .error (.counter (.invalidArgument fault)) s'

namespace Catalog

variable {c : Catalog} {t : Transaction}

theorem missing?_cases (h : t.trees.Shows c.ledger) (group name : String) :
    (c.Live group name ∧ t.missing? group name = none) ∨
      (¬ c.Live group name ∧ t.missing? group name = some (.counter (.notFound group name))) := by
  have hnone : Index.liveId? t group name = .ok none ↔ ¬ c.Live group name := by
    rw [index_liveId? h, Except.ok.injEq, liveId?_eq_none_iff]
  by_cases hlive : c.Live group name
  · exact .inl ⟨hlive, if_neg fun heq => hnone.1 heq hlive⟩
  · exact .inr ⟨hlive, if_pos (hnone.2 hlive)⟩

end Catalog

namespace Write

variable {s : Session} {home : Node} {c : Catalog} {group name : String}

theorem refuses_store_of_least (h : Named group name) : Refuses (store group name Int64.minValue) s
    (.counter (.deltaOutOfRange Int64.minValue)) := by
  refine (returns_checkNames h).bind_refuses ?_
  rintro _ _ rfl
  exact ⟨rfl, (refuses_throw _).bind⟩

/-- A message fails only with the refusal of a counter without a name. -/
theorem applyEntries_failsOnly (entries : List FeedEntry) (h : s.Shows home c.ledger)
    (hs : c.Sound) (hroom : c.HasRoom entries.length) :
    FailsOnly (applyEntries entries) s fun e => ∃ fault, e = .counter (.invalidArgument fault) := by
  induction entries generalizing s c with
  | nil => exact .pure _
  | cons e rest ih =>
      rw [List.length_cons] at hroom
      refine (returns_alreadyApplied h e).bind_failsOnly ?_
      rintro skip s ⟨_, rfl⟩
      cases skip with
      | true => exact (ih h hs (hroom.mono (by omega))).bind fun _ _ _ => .pure _
      | false =>
          cases hfault : nameFault? e.group e.name with
          | some fault =>
              have hrefused : Refuses
                  (storeReplicated e.group e.name e.serverId e.sign e.value) s _ :=
                (refuses_checkNames hfault).bind
              exact hrefused.bind.failsOnly ⟨fault, rfl⟩
          | none =>
              rcases storeReplicated_ends h hs (hroom.mono (by omega)) e.group e.name e.serverId
                e.sign e.value with hwrite | ⟨_, _, _, hunnamed, _⟩
              · refine hwrite.bind_failsOnly ?_
                rintro _ s₁ ⟨_, h₁⟩
                have hevolves : Catalog.Evolves False 1 c _ :=
                  (Catalog.Evolves.refl 0 c).put e.group e.name e.serverId
                    (e.sign.under e.serverId) e.value (Sign.under_nil e.sign)
                exact (ih h₁ (hevolves.sound hs (hroom.mono (by omega)))
                  (hevolves.hasRoom (hroom.mono (by omega)))).bind fun _ _ _ => .pure _
              · exact absurd (nameFault?_eq_none_iff.1 hfault) hunnamed

theorem applyMessage_failsOnly (message : Message) (h : s.Shows home c.ledger) (hs : c.Sound)
    (hroom : c.HasRoom message.entries.length) : FailsOnly (applyMessage message) s
      fun e => ∃ fault, e = .counter (.invalidArgument fault) := by
  refine (applyEntries_failsOnly message.entries h hs hroom).bind fun outcome s₁ hrun => ?_
  rcases applyEntries_ends message.entries h hs hroom with
    ⟨_, _, hrun', _, _, h₁⟩ | ⟨_, _, hrun', _⟩
  · cases hrun.symm.trans hrun'
    cases message.lastEtag with
    | none => exact .pure _
    | some etag =>
        refine (returns_query (Catalog.index_lastEtagFor h₁.trees _)).bind_failsOnly ?_
        rintro _ s₂ ⟨rfl, rfl⟩
        exact (returns_put h₁ .cursors message.serverId _).bind_failsOnly fun _ _ _ => .pure _
  · cases hrun.symm.trans hrun'

end Write

namespace Call

variable {s : Session} {home : Node} {c : Catalog} {call : Call} {e : Error}

theorem conforms_of_refuses (hrefusal : call.refusal? s.writer.transaction = some e)
    (h : Refuses call.operation s e) : call.Conforms s := by
  rw [Conforms, hrefusal]
  exact h

theorem conforms_of_returns {post : Unit → Session → Prop}
    (hrefusal : call.refusal? s.writer.transaction = none) (h : Returns call.operation s post) :
    call.Conforms s := by
  rw [Conforms, hrefusal]
  exact .inl (h.mono fun _ _ _ => trivial)

theorem returns_discard {α : Type} {op : Write α} {post : α → Session → Prop}
    (h : Returns op s post) : Returns (discard op) s fun _ _ => True :=
  h.bind fun _ _ _ => .pure trivial

theorem refuses_discard {α : Type} {op : Write α} (h : Refuses op s e) :
    Refuses (discard op) s e := h.bind

section Sound

variable (h : s.Shows home c.ledger) (hs : c.Sound)

include h hs

theorem conforms_store (hroom : c.HasRoom 1) (hnode : home.serverId ≠ .nil) (group name : String)
    (delta : Int64) : (store group name delta).Conforms s := by
  cases hfault : nameFault? group name with
  | some fault =>
      refine conforms_of_refuses ?_ (refuses_discard (Write.refuses_checkNames hfault).bind)
      rw [refusal?, namesRefusal?, hfault]
      rfl
  | none =>
      have hnamed := nameFault?_eq_none_iff.1 hfault
      by_cases hdelta : delta = Int64.minValue
      · subst hdelta
        refine conforms_of_refuses ?_ (refuses_discard (Write.refuses_store_of_least hnamed))
        rw [refusal?, namesRefusal?, hfault, if_pos rfl]
        rfl
      · rcases Write.store_ends h hs hroom hnode group name delta with
          hreturns | ⟨_, _, _, hrefused, _⟩
        · refine conforms_of_returns ?_ (returns_discard hreturns)
          rw [refusal?, namesRefusal?, hfault, if_neg hdelta]
          rfl
        · exact absurd ⟨hnamed, hdelta⟩ hrefused

theorem conforms_storeReplicated (hroom : c.HasRoom 1) (group name : String)
    (serverId : ServerId) (sign : Sign) (value : Int64) :
    (storeReplicated group name serverId sign value).Conforms s := by
  cases hfault : nameFault? group name with
  | some fault =>
      refine conforms_of_refuses ?_ (refuses_discard (Write.refuses_checkNames hfault).bind)
      rw [refusal?, namesRefusal?, hfault]
      rfl
  | none =>
      rcases Write.storeReplicated_ends h hs hroom group name serverId sign value with
        hreturns | ⟨_, _, _, hunnamed, _⟩
      · refine conforms_of_returns ?_ (returns_discard hreturns)
        rw [refusal?, namesRefusal?, hfault]
        rfl
      · exact absurd (nameFault?_eq_none_iff.1 hfault) hunnamed

theorem conforms_reset (hn : c.AllNamed) (hroom : c.HasRoom 1) (hnode : home.serverId ≠ .nil)
    (group name : String) : (reset group name).Conforms s := by
  rcases Catalog.missing?_cases h.trees group name with ⟨hlive, hmissing⟩ | ⟨hdead, hmissing⟩
  · obtain ⟨slots, hlists⟩ := Catalog.exists_lists h.trees group name
    obtain ⟨total, htotal⟩ : ∃ total, c.Totals group name total := ⟨_, slots, hlists, rfl⟩
    have hread := htotal.index_totalOf h.trees hlive
    by_cases hmin : total = Int64.minValue
    · subst hmin
      refine conforms_of_refuses ?_ (refuses_discard (Write.refuses_reset h hlive htotal))
      rw [refusal?, hmissing, if_pos hread]
      rfl
    · have hother : Index.totalOf s.writer.transaction group name ≠ .ok Int64.minValue :=
        fun heq => hmin (Except.ok.inj (hread.symm.trans heq))
      refine conforms_of_returns ?_
        (returns_discard (Write.returns_reset hs hnode h hn hroom hlive htotal hmin))
      rw [refusal?, hmissing, if_neg hother]
      rfl
  · refine conforms_of_refuses ?_ (refuses_discard (Write.refuses_checkLive h hdead).bind)
    rw [refusal?, hmissing]
    rfl

/-- A deletion goes through for every live counter, also from the least total. -/
theorem conforms_delete (hn : c.AllNamed) (hroom : c.HasRoom 3) (hnode : home.serverId ≠ .nil)
    (group name : String) : (delete group name).Conforms s := by
  rcases Catalog.missing?_cases h.trees group name with ⟨hlive, hmissing⟩ | ⟨hdead, hmissing⟩
  · exact conforms_of_returns hmissing (Write.returns_deleteLive hs hnode h hn hroom hlive)
  · exact conforms_of_refuses hmissing (Write.refuses_checkLive h hdead).bind

theorem conforms_apply (message : Message) (hroom : c.HasRoom message.entries.length) :
    (apply message).Conforms s := by
  rcases Write.applyMessage_ends message h hs hroom with hreturns | ⟨e, s', hrun, hunnamed, _⟩
  · exact conforms_of_returns rfl (returns_discard hreturns)
  · obtain ⟨fault, rfl⟩ := Write.applyMessage_failsOnly message h hs hroom e s' hrun
    have hfails : Fails (apply message).operation s _ fun s'' => s'' = s' :=
      Fails.bind ⟨s', hrun, rfl⟩
    obtain ⟨_, hrun', rfl⟩ := hfails
    exact .inr ⟨message, rfl, hunnamed, fault, _, hrun'⟩

/-- Every call on the trees of a sound catalog is refused for what is told in advance, or
answers. -/
theorem conforms (call : Call) (hn : c.AllNamed) (hroom : c.HasRoom call.writes)
    (hnode : home.serverId ≠ .nil) : call.Conforms s := by
  cases call with
  | store group name delta => exact conforms_store h hs hroom hnode group name delta
  | storeReplicated group name serverId sign value =>
      exact conforms_storeReplicated h hs hroom group name serverId sign value
  | reset group name => exact conforms_reset h hs hn hroom hnode group name
  | delete group name => exact conforms_delete h hs hn hroom hnode group name
  | purge => exact conforms_of_returns rfl (returns_discard (Write.forgets_purgeBatch h hs))
  | apply message => exact conforms_apply h hs message hroom
  | recordPeerEtag serverId etag =>
      exact conforms_of_returns rfl (Write.returns_put h .cursors serverId etag)
  | updateReplication document =>
      exact conforms_of_returns rfl (Write.returns_updateReplication h document)

end Sound

/-- No call is refused because of damaged data or by the engine. -/
theorem isRefusal_of_refusal? {t : Transaction} (h : call.refusal? t = some e) :
    e.IsRefusal := by
  have hnames : ∀ {group name : String}, namesRefusal? group name = some e → e.IsRefusal := by
    intro group name hrefusal
    obtain ⟨fault, _, rfl⟩ := Option.map_eq_some_iff.1 hrefusal
    exact ⟨rfl, rfl⟩
  have hmissing : ∀ {group name : String}, t.missing? group name = some e → e.IsRefusal := by
    intro group name hrefusal
    obtain ⟨_, ⟨⟩⟩ := Option.ite_none_right_eq_some.1 hrefusal
    exact ⟨rfl, rfl⟩
  cases call with
  | store group name delta =>
      rcases Option.or_eq_some_iff.1 h with hrefusal | ⟨_, hrefusal⟩
      · exact hnames hrefusal
      · obtain ⟨_, ⟨⟩⟩ := Option.ite_none_right_eq_some.1 hrefusal
        exact ⟨rfl, rfl⟩
  | storeReplicated group name serverId sign value => exact hnames h
  | reset group name =>
      rcases Option.or_eq_some_iff.1 h with hrefusal | ⟨_, hrefusal⟩
      · exact hmissing hrefusal
      · obtain ⟨_, ⟨⟩⟩ := Option.ite_none_right_eq_some.1 hrefusal
        exact ⟨rfl, rfl⟩
  | delete group name => exact hmissing h
  | _ => cases h

theorem Conforms.failsOnly (h : call.Conforms s) :
    FailsOnly call.operation s Error.IsRefusal := by
  rw [Conforms] at h
  cases hrefusal : call.refusal? s.writer.transaction with
  | some e =>
      rw [hrefusal] at h
      exact h.failsOnly (isRefusal_of_refusal? hrefusal)
  | none =>
      rw [hrefusal] at h
      rcases h with hreturns | ⟨_, _, _, fault, s', hrun⟩
      · exact hreturns.failsOnly
      · intro e s'' hrun'
        cases hrun.symm.trans hrun'
        exact ⟨rfl, rfl⟩

end Call

namespace Stage

variable {stage : Stage}

/-- In every state of a run all questions of readers are answered, on the trees that were committed
last and on those of an open writer. Every call of the writer is refused exactly for what its
arguments and the trees tell, with nothing done, and otherwise answers; no call fails because of
damaged data or in the engine. -/
theorem Reachable.fails_exactly (h : Reachable stage) :
    stage.reader.Answers ∧ ∀ engine s, stage = writing engine s →
      s.writer.transaction.Answers ∧
      ∀ call : Call, s.writer.lastEtag.toNat + call.writes < UInt64.size →
        s.writer.lastCounterId.toNat + call.writes < UInt64.size →
        call.Conforms s ∧ FailsOnly call.operation s Error.IsRefusal := by
  obtain ⟨base, cur, hpresents⟩ := h.presents
  refine ⟨hpresents.reader_answers, ?_⟩
  rintro engine s rfl
  refine ⟨hpresents.writer_answers, fun call hetag hcounterId => ?_⟩
  obtain ⟨hs, _, home, hcommitted, hshows⟩ := hpresents.carries
  rw [hshows.lastEtag] at hetag
  rw [hshows.lastCounterId] at hcounterId
  have hconforms := call.conforms hshows hs hpresents.named_cur ⟨hetag, hcounterId⟩
    hcommitted.serverId
  exact ⟨hconforms, hconforms.failsOnly⟩

/-- Another node has brought the counter to the least total: it cannot be reset, but deleted. -/
theorem fails_exactly_of_least_total : ∃ engine s,
    (writing engine s).reader.Answers ∧ s.writer.transaction.Answers ∧
    Refuses (Call.reset "group" "name").operation s
      (.counter (.deltaOutOfRange Int64.minValue)) ∧
    Returns (Call.delete "group" "name").operation s (fun _ _ => True) ∧
    Refuses (Call.delete "group" "other").operation s (.counter (.notFound "group" "other")) ∧
    Refuses (Call.store "group" "" 7).operation s
      (.counter (.invalidArgument .emptyName)) := by
  obtain ⟨engine, s, _, hreachable, hlive, htotal, hother, hetag, hcounterId⟩ :=
    exists_afterCalls_of_finds plainOpening rfl (by decide) (by decide)
      [.storeReplicated "group" "name" ⟨List.replicate 16 9, rfl⟩ .positive Int64.minValue]
      (by decide)
      (fun _ s => Index.liveId? s.writer.transaction "group" "name" = .ok (some 1) ∧
        Index.totalOf s.writer.transaction "group" "name" = .ok Int64.minValue ∧
        Index.liveId? s.writer.transaction "group" "other" = .ok none ∧
        s.writer.lastEtag = 1 ∧ s.writer.lastCounterId = 1) (by decide +kernel)
  obtain ⟨hreader, hwriting⟩ := hreachable.fails_exactly
  obtain ⟨hwriter, hcalls⟩ := hwriting engine s rfl
  have hfound : s.writer.transaction.missing? "group" "name" = none :=
    if_neg fun heq => by cases hlive.symm.trans heq
  obtain ⟨hreset, _⟩ := hcalls (.reset "group" "name") (by rw [hetag]; decide)
    (by rw [hcounterId]; decide)
  obtain ⟨hdelete, _⟩ := hcalls (.delete "group" "name") (by rw [hetag]; decide)
    (by rw [hcounterId]; decide)
  obtain ⟨hunknown, _⟩ := hcalls (.delete "group" "other") (by rw [hetag]; decide)
    (by rw [hcounterId]; decide)
  obtain ⟨hunnamed, _⟩ := hcalls (.store "group" "" 7) (by rw [hetag]; decide)
    (by rw [hcounterId]; decide)
  refine ⟨engine, s, hreader, hwriter, ?_, ?_, ?_, hunnamed⟩
  · rw [Call.Conforms, Call.refusal?, hfound, if_pos htotal] at hreset
    exact hreset
  · rw [Call.Conforms, Call.refusal?, hfound] at hdelete
    exact hdelete.resolve_right nofun
  · rw [Call.Conforms, Call.refusal?, Transaction.missing?, if_pos hother] at hunknown
    exact hunknown

end Stage

end CounterMesh
