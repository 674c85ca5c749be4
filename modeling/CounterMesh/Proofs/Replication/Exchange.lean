import CounterMesh.Proofs.Replication.Apply
import CounterMesh.Proofs.Replication.Pull
import CounterMesh.Proofs.Store.Commit
import CounterMesh.Replication.Exchange

/-!
# Exchanges on catalogs

However an exchange is cut into batches, and wherever it ends, the target has
applied a front of the feed of the source from its cursor on, as one message.
-/

namespace CounterMesh

/-- The source answers from one feed as long as the exchange goes on. -/
def Origin.Feeds (origin : Origin) (own source : ServerId) (c : Catalog)
    (feed : List FeedEntry) : Prop :=
  ∀ (store : Store) (count : Nat), store.Holds own (c.pull own source feed count) →
    ∀ since max, Index.changes ⟨.read, origin.committed store.engine⟩ since max =
      .ok ((feedAfter feed since).take max)

section Feeds

variable {store : Store} {origin : Origin} {own source : ServerId} {c src : Catalog}
variable {db : Database} {feed : List FeedEntry} {count : Nat}

/-- What a source with an engine of its own has committed does not change. -/
theorem Origin.feeds_apart (hdb : db.Shows src.ledger) (hs : src.Sound) (hfeed : src.Feed feed) :
    (Origin.apart db).Feeds own source c feed :=
  fun _ _ _ => hfeed.changes hdb hs

/-- A store that pulls from itself has nothing to put, and so its feed stays as it is. -/
theorem Origin.feeds_shared (hs : c.Sound) (hu : c.Undeleted) (hfeed : c.Feed feed) :
    Origin.shared.Feeds own own c feed := by
  intro store count h
  have hpull : (c.pull own own feed count).Feed feed := by
    rw [Catalog.pull_of_pulled_eq_zero (hfeed.pulled_self hs hu)]
    exact ⟨hfeed.sorted, hfeed.mem_iff⟩
  exact hpull.changes h.keeps.shows h.keeps.sound

theorem Origin.Feeds.pull (h : origin.Feeds own source c feed) (hfeed : src.Feed feed) :
    origin.Feeds own source (c.pull own source feed count) feed := by
  intro store count' hholds
  rw [Catalog.pull_pull hfeed] at hholds
  exact h store _ hholds

theorem Origin.Feeds.changes (h : origin.Feeds own source c feed) (hholds : store.Holds own c)
    (since : Etag) (max : Nat) : Index.changes ⟨.read, origin.committed store.engine⟩ since max =
      .ok ((feedAfter feed since).take max) :=
  h store 0 (Catalog.pull_zero.symm ▸ hholds) since max

end Feeds

namespace StoreM

variable {store : Store} {origin : Origin} {own source : ServerId} {c src : Catalog}
variable {feed : List FeedEntry}

/-- The next message holds the entries behind the cursor, as many as fit a batch. -/
theorem returns_nextMessage (h : store.Holds own c) (horigin : origin.Feeds own source c feed) :
    Returns (nextMessage source origin) store fun message store' => store' = store ∧
      message = ⟨source, (feedAfter feed (c.cursorFor source)).take
        store.node.config.replicationBatchSize.toNat⟩ := by
  have hcursor : Index.lastEtagFor store.engine.snapshot source = .ok (c.cursorFor source) :=
    Catalog.index_lastEtagFor h.keeps.shows source
  refine (returns_query hcursor).bind ?_
  rintro _ store ⟨rfl, rfl⟩
  refine returns_config.bind ?_
  rintro _ store ⟨rfl, rfl⟩
  refine Returns.get.bind ?_
  rintro _ store ⟨rfl, rfl⟩
  refine (returns_ofExcept (horigin.changes h _ _)).bind ?_
  rintro _ store ⟨rfl, rfl⟩
  exact .pure ⟨rfl, rfl⟩

/-- A message about counters with names is applied and published as a whole. -/
theorem returns_applyMessage (h : store.Holds own c) (notify : Bool) (message : Message)
    (hnamed : ∀ e ∈ message.entries, Named e.group e.name)
    (hroom : c.HasRoom message.entries.length) :
    Returns (transact notify (Write.applyMessage message)) store fun outcome store' =>
      outcome.Counts own c message.entries ∧ store'.Holds own (c.apply own message) := by
  have hevolves : Catalog.Evolves False message.entries.length c (c.apply own message) := by
    simpa using Catalog.evolves_apply (.refl 0 c) message
  refine (returns_transact (Write.applyMessage message) (fun outcome c' =>
    outcome.Counts own c message.entries ∧ c' = c.apply own message) h notify
    fun s hshows => ?_).mono ?_
  · have happly := Write.returns_applyMessage message hshows h.keeps.sound hnamed hroom
    rw [h.serverId_eq] at happly
    refine happly.mono ?_
    rintro outcome s' ⟨hcounts, h'⟩
    exact ⟨_, ⟨hcounts, rfl⟩, hevolves.sound h.keeps.sound hroom, hevolves.records h.records, h'⟩
  · rintro outcome store' ⟨_, ⟨hcounts, rfl⟩, h'⟩
    exact ⟨hcounts, h'⟩

/-- Batches one after another pull a front of the feed. -/
theorem returns_pullBatches (hfeed : src.Feed feed)
    (hnamed : ∀ e ∈ feed, Named e.group e.name) (started : UInt64) (fuel : Nat)
    (h : store.Holds own c) (horigin : origin.Feeds own source c feed)
    (hroom : c.HasRoom (feedAfter feed (c.cursorFor source)).length) :
    Returns (pullBatches source origin started fuel) store fun applied store' =>
      ∃ count, applied = c.pulled own source feed count ∧
        store'.Holds own (c.pull own source feed count) := by
  have hstop : ∀ {store : Store} {c : Catalog}, store.Holds own c →
      Returns (pure 0 : StoreM Nat) store fun applied store' =>
        ∃ count, applied = c.pulled own source feed count ∧
          store'.Holds own (c.pull own source feed count) := by
    intro store c h
    exact .pure ⟨0, Catalog.pulled_zero.symm, by rwa [Catalog.pull_zero]⟩
  induction fuel generalizing store c with
  | zero => exact hstop h
  | succ fuel ih =>
      refine (returns_now h).bind fun time store₁ h₁ => ?_
      refine returns_config.bind ?_
      rintro config store₂ ⟨rfl, rfl⟩
      split
      · exact hstop h₁
      · refine (returns_nextMessage h₁ horigin).bind ?_
        rintro message store₂ ⟨rfl, rfl⟩
        split
        · exact hstop h₁
        · generalize store₂.node.config.replicationBatchSize.toNat = batch
          have hlength : (feedAfter feed (c.cursorFor source)).length =
              ((feedAfter feed (c.cursorFor source)).take batch).length +
                ((feedAfter feed (c.cursorFor source)).drop batch).length := by
            rw [← List.length_append, List.take_append_drop]
          rw [hlength] at hroom
          have hbatch : ∀ e ∈ (feedAfter feed (c.cursorFor source)).take batch,
              Named e.group e.name := fun e he =>
            hnamed e (List.mem_filter.1 (List.mem_of_mem_take he)).1
          refine (returns_applyMessage h₁ true _ hbatch
            (hroom.mono (Nat.le_add_right _ _))).bind ?_
          rintro outcome store₃ ⟨hcounts, h₃⟩
          have hpull : store₃.Holds own (c.pull own source feed batch) := h₃
          have hevolves : Catalog.Evolves False _ c (c.pull own source feed batch) :=
            Catalog.evolves_apply (.refl 0 c) _
          refine (ih hpull (horigin.pull hfeed) ?_).bind ?_
          · rw [Catalog.feedAfter_pull hfeed]
            exact hevolves.hasRoom (by rwa [Nat.zero_add])
          · rintro applied store₄ ⟨count, rfl, h₄⟩
            rw [Catalog.pull_pull hfeed] at h₄
            refine .pure ⟨batch + count, ?_, h₄⟩
            rw [hcounts.applied, Catalog.pulled_add hfeed]
            rfl

/-- An exchange pulls a front of the feed of the source, whether it comes to the end of the feed or
is cut short. -/
theorem returns_replicate (hfeed : src.Feed feed) (hnamed : ∀ e ∈ feed, Named e.group e.name)
    (h : store.Holds own c) (horigin : origin.Feeds own source c feed)
    (hroom : c.HasRoom feed.length) :
    Returns (replicate source origin) store fun applied store' =>
      ∃ count, applied = c.pulled own source feed count ∧
        store'.Holds own (c.pull own source feed count) := by
  refine (returns_now h).bind fun started store₁ h₁ => ?_
  refine Returns.get.bind ?_
  rintro _ store₂ ⟨rfl, rfl⟩
  refine returns_config.bind ?_
  rintro _ store₃ ⟨rfl, rfl⟩
  exact returns_pullBatches hfeed hnamed started _ h₁ horigin
    (hroom.mono (List.length_filter_le _ _))

end StoreM

end CounterMesh
