import CounterMesh.Proofs.Replication.Exchange
import CounterMesh.Proofs.Store.Batches

/-!
# Exchanges as one message

An exchange looks at the clock and at the feed again before every batch, and each
batch is applied and committed in a writer of its own. Every look but the last
passes at least one entry, so an exchange ends for whatever clock. Batches of one
feed make up one front of it, wherever they were cut; exchanges that were cut
short and are taken up again therefore leave, in the end, what a single message
leaves that holds all entries behind the cursor.
-/

namespace CounterMesh

namespace StoreM

variable {store store' store'' : Store} {origin : Origin} {own source : ServerId}
variable {c src : Catalog} {feed : List FeedEntry} {started : UInt64}

/-- What an exchange comes to when it looks at the clock and at the feed. -/
inductive Look where
  /-- The time is over. -/
  | late
  /-- There is nothing behind the cursor. -/
  | caughtUp
  /-- A batch was pulled, of which so many entries were merged. -/
  | pulled (applied : Nat)

/-- How many entries were merged at a look. -/
def Look.applied : Look → Nat
  | pulled applied => applied
  | _ => 0

/-- One look of an exchange. -/
def look (source : ServerId) (origin : Origin) (started : UInt64) : StoreM Look := do
  if (← now).toNat - started.toNat > (← config).timeoutMillis then return .late
  let message ← nextMessage source origin
  if message.isEmpty then return .caughtUp
  let outcome ← transact true (Write.applyMessage message)
  return .pulled outcome.applied

/-- The loop of an exchange goes on after every look that has pulled a batch. -/
theorem pullBatches_succ (fuel : Nat) : pullBatches source origin started (fuel + 1) = (do
    match ← look source origin started with
    | .pulled applied => return applied + (← pullBatches source origin started fuel)
    | _ => return 0) := by
  rw [pullBatches, look]
  simp only [bind_assoc]
  refine bind_congr fun time => bind_congr fun config => ?_
  split
  · rfl
  · simp only [bind_assoc]
    refine bind_congr fun message => ?_
    split
    · rfl
    · simp only [bind_assoc, pure_bind]

/-- An operation in a writer of its own leaves the settings of its store alone, if it leaves those
of its writer alone. -/
theorem leaves_config_transact {α : Type} {operation : Write α} (h : store.Holds own c)
    (notify : Bool) (hop : ∀ s : Session, s.Shows store.node c.ledger →
      Leaves operation s fun s' => s'.node.config = store.node.config) :
    Leaves (transact notify operation) store fun store' =>
      store'.node.config = store.node.config := by
  have hrun := run_transact_of_unlocked notify operation (fun _ => true) h.unlocked
  rcases hop _ h.keeps.shows_firstWriter with ⟨a, s', hop, hconfig⟩ | ⟨e, s', hop, hconfig⟩
  · rw [hop] at hrun
    exact .inl ⟨a, _, hrun, hconfig⟩
  · rw [hop] at hrun
    exact .inr ⟨e, _, hrun, hconfig⟩

/-- A look passes this many entries of the feed, and pulls them. -/
structure Look.Passes (look : Look) (store store' : Store) (started : UInt64)
    (own source : ServerId) (c : Catalog) (feed : List FeedEntry) (count : Nat) : Prop where
  holds : store'.Holds own (c.pull own source feed count)
  config : store'.node.config = store.node.config
  applied : look.applied = c.pulled own source feed count
  late_iff : look = .late ↔
    store.node.config.timeoutMillis < store.node.clock.now.1.toNat - started.toNat
  caughtUp : look = .caughtUp →
    feedAfter feed ((c.pull own source feed count).cursorFor source) = []
  progress : ∀ applied, look = .pulled applied →
    ((feedAfter feed (c.cursorFor source)).drop count).length <
      (feedAfter feed (c.cursorFor source)).length

theorem returns_look (h : store.Holds own c) (horigin : origin.Feeds own source c feed)
    (hnamed : ∀ e ∈ feed, Named e.group e.name)
    (hroom : c.HasRoom (feedAfter feed (c.cursorFor source)).length) (started : UInt64) :
    Returns (look source origin started) store fun look store' =>
      ∃ count, look.Passes store store' started own source c feed count := by
  have hnow : Returns now store fun time store' =>
      time = store.node.clock.now.1 ∧ store' = store.withClock store.node.clock.now.2 :=
    ⟨_, _, rfl, rfl, rfl⟩
  refine hnow.bind ?_
  rintro _ _ ⟨rfl, rfl⟩
  have h₁ : (store.withClock store.node.clock.now.2).Holds own c := h.outside _ store.node.signal
  have hsame : (store.withClock store.node.clock.now.2).Holds own (c.pull own source feed 0) := by
    rwa [Catalog.pull_zero]
  refine returns_config.bind ?_
  rintro _ _ ⟨rfl, rfl⟩
  split
  · next hlate =>
    exact .pure ⟨0, hsame, rfl, rfl, iff_of_true rfl hlate, nofun, nofun⟩
  · next hintime =>
    have hintime' : ¬ store.node.config.timeoutMillis <
        store.node.clock.now.1.toNat - started.toNat := hintime
    refine (returns_nextMessage h₁ horigin).bind ?_
    rintro _ _ ⟨rfl, rfl⟩
    have hbatch := Config.replicationBatch_pos h.valid
    generalize hcount : store.node.config.replicationBatchSize.toNat = count at hbatch
    have hcount' : (store.withClock store.node.clock.now.2).node.config.replicationBatchSize.toNat =
      count := hcount
    rw [hcount']
    split
    · next hempty =>
      have hnil : feedAfter feed (c.cursorFor source) = [] :=
        (List.take_eq_nil_iff.1 (List.isEmpty_iff.1 hempty)).resolve_left (Nat.ne_of_gt hbatch)
      refine .pure ⟨0, hsame, rfl, rfl, iff_of_false nofun hintime', fun _ => ?_, nofun⟩
      rwa [Catalog.pull_zero]
    · next hsome =>
      have hfront : ∀ e ∈ (feedAfter feed (c.cursorFor source)).take count,
          Named e.group e.name := fun e he =>
        hnamed e (List.mem_filter.1 (List.mem_of_mem_take he)).1
      have hroom' := hroom.mono (List.length_take_le' count _)
      have hconfig : Leaves (transact true (Write.applyMessage
          ⟨source, (feedAfter feed (c.cursorFor source)).take count⟩))
          (store.withClock store.node.clock.now.2) fun store' =>
            store'.node.config = store.node.config :=
        leaves_config_transact h₁ true fun s hshows =>
          (Write.returns_applyMessage _ hshows h.keeps.sound hfront hroom').leaves
            fun _ _ h' => h'.2.config_eq
      refine ((returns_applyMessage h₁ true _ hfront hroom').and_ends hconfig).bind ?_
      rintro outcome store' ⟨⟨hcounts, hholds⟩, hconfig⟩
      refine .pure ⟨count, hholds, hconfig, hcounts.applied, iff_of_false nofun hintime', nofun,
        fun _ _ => ?_⟩
      have hpos : 0 < (feedAfter feed (c.cursorFor source)).length := by
        rw [List.length_pos_iff]
        rintro hnil
        rw [hnil, List.take_nil] at hsome
        exact hsome rfl
      rw [List.length_drop]
      omega

/-- The loop of an exchange that began at `started`, with the clock moved before every look: the
numbers of entries that its batches merged, and whether it was cut short by the time. -/
inductive Batches (source : ServerId) (origin : Origin) (started : UInt64) :
    (moves : Nat → Clock → Clock) → Store → List Nat → (deferred : Bool) → Store → Prop where
  | late {moves : Nat → Clock → Clock} {store store' : Store}
      (h : (look source origin started).run
        (store.withClock (moves 0 store.node.clock)) = .ok .late store') :
      Batches source origin started moves store [] true store'
  | caughtUp {moves : Nat → Clock → Clock} {store store' : Store}
      (h : (look source origin started).run
        (store.withClock (moves 0 store.node.clock)) = .ok .caughtUp store') :
      Batches source origin started moves store [] false store'
  | pulled {moves : Nat → Clock → Clock} {store store' store'' : Store} {applied : Nat}
      {batches : List Nat} {deferred : Bool}
      (h : (look source origin started).run
        (store.withClock (moves 0 store.node.clock)) = .ok (.pulled applied) store')
      (hrest : Batches source origin started (fun round => moves (round + 1)) store' batches
        deferred store'') :
      Batches source origin started moves store (applied :: batches) deferred store''

/-- An exchange reads the time and pulls batches; the clock is moved before every reading. -/
inductive Exchanges (source : ServerId) (origin : Origin) (moves : Nat → Clock → Clock)
    (store : Store) (batches : List Nat) (deferred : Bool) (store'' : Store) : Prop where
  | start {started : UInt64} {store' : Store}
      (h : now.run (store.withClock (moves 0 store.node.clock)) = .ok started store')
      (hbatches : Batches source origin started (fun round => moves (round + 1)) store' batches
        deferred store'')

/-- Exchanges one after another that are cut short, up to one that is not. -/
inductive Resumes (source : ServerId) (origin : Origin) : Store → List Nat → Store → Prop where
  | last {store store' : Store} {moves : Nat → Clock → Clock} {batches : List Nat}
      (h : Exchanges source origin moves store batches false store') :
      Resumes source origin store batches store'
  | again {store store' store'' : Store} {moves : Nat → Clock → Clock} {batches batches' : List Nat}
      (h : Exchanges source origin moves store batches true store')
      (hrest : Resumes source origin store' batches' store'') :
      Resumes source origin store (batches ++ batches') store''

/-- Batches with these numbers of merged entries have passed so many entries of the feed. -/
structure Pulled (own source : ServerId) (c : Catalog) (feed : List FeedEntry)
    (store store' : Store) (batches : List Nat) (deferred : Bool) (count : Nat) : Prop where
  holds : store'.Holds own (c.pull own source feed count)
  config : store'.node.config = store.node.config
  applied : batches.sum = c.pulled own source feed count
  caughtUp : deferred = false →
    feedAfter feed ((c.pull own source feed count).cursorFor source) = []

theorem Pulled.trans {count count' : Nat} {batches batches' : List Nat} {deferred deferred' : Bool}
    (hfeed : src.Feed feed) (h : Pulled own source c feed store store' batches deferred count)
    (h' : Pulled own source (c.pull own source feed count) feed store' store'' batches' deferred'
      count') :
    Pulled own source c feed store store'' (batches ++ batches') deferred' (count + count') where
  holds := Catalog.pull_pull hfeed ▸ h'.holds
  config := h'.config.trans h.config
  applied := by rw [List.sum_append, h.applied, h'.applied, Catalog.pulled_add hfeed]
  caughtUp := by
    rw [← Catalog.pull_pull hfeed]
    exact h'.caughtUp

/-- What a store has to be for an exchange: it holds the catalog, the source answers from the feed,
and there is room for what stands behind the cursor. -/
structure Faces (store : Store) (origin : Origin) (own source : ServerId) (c src : Catalog)
    (feed : List FeedEntry) : Prop where
  holds : store.Holds own c
  feeds : origin.Feeds own source c feed
  listed : src.Feed feed
  named : ∀ e ∈ feed, Named e.group e.name
  room : c.HasRoom (feedAfter feed (c.cursorFor source)).length

namespace Faces

theorem withClock (h : Faces store origin own source c src feed) (clock : Clock) :
    Faces (store.withClock clock) origin own source c src feed :=
  ⟨h.holds.outside clock store.node.signal, h.feeds, h.listed, h.named, h.room⟩

/-- A store that has pulled a front of the feed faces the rest. -/
theorem pull (h : Faces store origin own source c src feed) {count : Nat}
    (hholds : store'.Holds own (c.pull own source feed count)) :
    Faces store' origin own source (c.pull own source feed count) src feed where
  holds := hholds
  feeds := h.feeds.pull h.listed
  listed := h.listed
  named := h.named
  room := by
    have hlength : (feedAfter feed (c.cursorFor source)).length =
        ((feedAfter feed (c.cursorFor source)).take count).length +
          ((feedAfter feed (c.cursorFor source)).drop count).length := by
      rw [← List.length_append, List.take_append_drop]
    have hroom := h.room
    rw [hlength] at hroom
    have hevolves : Catalog.Evolves False (0 + _) c (c.pull own source feed count) :=
      Catalog.evolves_apply (.refl 0 c) _
    rw [Catalog.feedAfter_pull h.listed]
    exact hevolves.hasRoom (by rwa [Nat.zero_add])

theorem returns_look (h : Faces store origin own source c src feed) (started : UInt64) :
    Returns (look source origin started) store fun look store' =>
      ∃ count, look.Passes store store' started own source c feed count :=
  StoreM.returns_look h.holds h.feeds h.named h.room started

/-- What a look is known to have done. -/
theorem passes (h : Faces store origin own source c src feed) {found : Look}
    (hrun : (look source origin started).run store = .ok found store') :
    ∃ count, found.Passes store store' started own source c feed count := by
  obtain ⟨look, store₁, hrun', hpasses⟩ := h.returns_look started
  cases hrun.symm.trans hrun'
  exact hpasses

end Faces

theorem Look.Passes.pulled {found : Look} {clock : Clock} {count : Nat} {batches : List Nat}
    {deferred : Bool} (h : found.Passes (store.withClock clock) store' started own source c feed
      count) (happlied : batches.sum = found.applied)
    (hdeferred : deferred = false → found = .caughtUp) :
    Pulled own source c feed store store' batches deferred count :=
  ⟨h.holds, h.config, happlied.trans h.applied, fun hnot => h.caughtUp (hdeferred hnot)⟩

variable {moves : Nat → Clock → Clock} {batches : List Nat} {deferred : Bool}

/-- Batches pull a front of the feed, and all of it unless they are cut short. -/
theorem Batches.pulled_front
    (h : Batches source origin started moves store batches deferred store')
    (hfaces : Faces store origin own source c src feed) :
    ∃ count, Pulled own source c feed store store' batches deferred count := by
  induction h generalizing c with
  | late h =>
      obtain ⟨count, hpasses⟩ := (hfaces.withClock _).passes h
      exact ⟨count, hpasses.pulled rfl nofun⟩
  | caughtUp h =>
      obtain ⟨count, hpasses⟩ := (hfaces.withClock _).passes h
      exact ⟨count, hpasses.pulled rfl fun _ => rfl⟩
  | @pulled _ store _ _ applied batches _ h hrest ih =>
      obtain ⟨count, hpasses⟩ := (hfaces.withClock _).passes h
      obtain ⟨count', hrest'⟩ := ih (hfaces.pull hpasses.holds)
      have hfirst : Pulled own source c feed store _ [applied] true count :=
        hpasses.pulled (List.sum_singleton) nofun
      exact ⟨count + count', hfirst.trans hfaces.listed hrest'⟩

/-- The batches of an exchange begin after the first reading of the clock. -/
theorem Exchanges.loop (h : Exchanges source origin moves store batches deferred store') :
    Batches source origin (moves 0 store.node.clock).now.1 (fun round => moves (round + 1))
      (store.withClock (moves 0 store.node.clock).now.2) batches deferred store' := by
  obtain ⟨hnow, hbatches⟩ := h
  cases hnow
  exact hbatches

theorem Exchanges.pulled_front
    (h : Exchanges source origin moves store batches deferred store')
    (hfaces : Faces store origin own source c src feed) :
    ∃ count, Pulled own source c feed store store' batches deferred count := by
  obtain ⟨count, hpulled⟩ := h.loop.pulled_front (hfaces.withClock _)
  exact ⟨count, hpulled.holds, hpulled.config, hpulled.applied, hpulled.caughtUp⟩

/-- Exchanges that are taken up again until one comes to the end pull the whole feed. -/
theorem Resumes.pulled_front (h : Resumes source origin store batches store')
    (hfaces : Faces store origin own source c src feed) :
    ∃ count, Pulled own source c feed store store' batches false count := by
  induction h generalizing c with
  | last h => exact h.pulled_front hfaces
  | again h hrest ih =>
      obtain ⟨count, hpulled⟩ := h.pulled_front hfaces
      obtain ⟨count', hpulled'⟩ := ih (hfaces.pull hpulled.holds)
      exact ⟨count + count', hpulled.trans hfaces.listed hpulled'⟩

/-- Batches end for whatever clock, since every one of them leaves less behind the cursor. -/
theorem exists_batches (hfaces : Faces store origin own source c src feed) (started : UInt64)
    (moves : Nat → Clock → Clock) :
    ∃ batches deferred store',
      Batches source origin started moves store batches deferred store' := by
  induction hlength : (feedAfter feed (c.cursorFor source)).length using Nat.strong_induction_on
    generalizing moves store c with
  | _ length ih =>
      obtain ⟨found, store₁, hrun, count, hpasses⟩ :=
        (hfaces.withClock (moves 0 store.node.clock)).returns_look started
      cases found with
      | late => exact ⟨[], true, store₁, .late hrun⟩
      | caughtUp => exact ⟨[], false, store₁, .caughtUp hrun⟩
      | pulled applied =>
          have hprogress := hpasses.progress applied rfl
          rw [← Catalog.feedAfter_pull hfaces.listed, hlength] at hprogress
          obtain ⟨batches, deferred, store', hbatches⟩ :=
            ih _ hprogress (hfaces.pull hpasses.holds) (fun round => moves (round + 1)) rfl
          exact ⟨applied :: batches, deferred, store', .pulled hrun hbatches⟩

/-- There are no more batches than entries behind the cursor. -/
theorem Batches.length_le
    (h : Batches source origin started moves store batches deferred store')
    (hfaces : Faces store origin own source c src feed) :
    batches.length ≤ (feedAfter feed (c.cursorFor source)).length := by
  induction h generalizing c with
  | late h => exact Nat.zero_le _
  | caughtUp h => exact Nat.zero_le _
  | @pulled moves store store' store'' applied batches deferred h hrest ih =>
      obtain ⟨count, hpasses⟩ := (hfaces.withClock _).passes h
      have hprogress := hpasses.progress applied rfl
      have hle := ih (hfaces.pull hpasses.holds)
      rw [Catalog.feedAfter_pull hfaces.listed] at hle
      rw [List.length_cons]
      omega

/-- Batches are not cut short while every look is in time. -/
theorem Batches.not_deferred
    (h : Batches source origin started moves store batches deferred store')
    (hfaces : Faces store origin own source c src feed)
    (hintime : ∀ round clock, (moves round clock).now.1.toNat - started.toNat ≤
      store.node.config.timeoutMillis) : deferred = false := by
  induction h generalizing c with
  | @late moves store store' h =>
      obtain ⟨count, hpasses⟩ := (hfaces.withClock _).passes h
      have hlate := hpasses.late_iff.1 rfl
      exact absurd (hintime 0 store.node.clock) (Nat.not_le.2 hlate)
  | caughtUp h => rfl
  | @pulled moves store store' store'' applied batches deferred h hrest ih =>
      obtain ⟨count, hpasses⟩ := (hfaces.withClock _).passes h
      refine ih (hfaces.pull hpasses.holds) fun round clock => ?_
      rw [hpasses.config]
      exact hintime (round + 1) clock

/-- An exchange with enough fuel is the loop of its batches. -/
theorem run_pullBatches_of_batches {fuel : Nat}
    (h : Batches source origin started (fun _ clock => clock) store batches deferred store')
    (hfuel : batches.length < fuel) :
    (pullBatches source origin started fuel).run store = .ok batches.sum store' := by
  generalize hmoves : (fun (_ : Nat) (clock : Clock) => clock) = moves at h
  obtain ⟨fuel, rfl⟩ := Nat.exists_eq_succ_of_ne_zero (Nat.ne_of_gt (Nat.zero_lt_of_lt hfuel))
  induction h generalizing fuel with
  | @late _ store store' h =>
      subst hmoves
      have hlook : (look source origin started).run store = .ok .late store' := h
      rw [pullBatches_succ, EStateM.run_bind, hlook]
      rfl
  | @caughtUp _ store store' h =>
      subst hmoves
      have hlook : (look source origin started).run store = .ok .caughtUp store' := h
      rw [pullBatches_succ, EStateM.run_bind, hlook]
      rfl
  | @pulled _ store store' store'' applied batches deferred h hrest ih =>
      subst hmoves
      have hlook : (look source origin started).run store = .ok (.pulled applied) store' := h
      have hfuel' : batches.length < fuel := Nat.lt_of_succ_lt_succ hfuel
      obtain ⟨fuel, rfl⟩ := Nat.exists_eq_succ_of_ne_zero (Nat.ne_of_gt (Nat.zero_lt_of_lt hfuel'))
      rw [pullBatches_succ, EStateM.run_bind, hlook]
      simp only [EStateM.run_bind, ih rfl fuel hfuel']
      rfl

/-- The fuel of an exchange is enough for its batches. -/
theorem run_replicate_of_exchanges
    (h : Exchanges source origin (fun _ clock => clock) store batches deferred store')
    (hfaces : Faces store origin own source c src feed)
    (hcount : Transaction.entryCount ⟨.read, origin.committed store.engine⟩ Layout.etagToKey =
      .ok feed.length) : (replicate source origin).run store = .ok batches.sum store' := by
  have hle := h.loop.length_le (hfaces.withClock _)
  have hfewer : (feedAfter feed (c.cursorFor source)).length ≤ feed.length :=
    List.length_filter_le _ _
  have hnow : now.run store =
      .ok store.node.clock.now.1 (store.withClock store.node.clock.now.2) := rfl
  have hrun : (replicate source origin).run store =
      (pullBatches source origin store.node.clock.now.1
        (feed.length + store.node.config.timeoutMillis + 2)).run
          (store.withClock store.node.clock.now.2) := by
    have hcount' : Transaction.entryCount ⟨.read, origin.committed (store.withClock
        store.node.clock.now.2).engine⟩ Layout.etagToKey = .ok feed.length := hcount
    rw [replicate, EStateM.run_bind, hnow]
    simp only [EStateM.run_bind, EStateM.run_get, config, EStateM.run_pure, hcount',
      Except.toOption, Option.getD_some]
    rfl
  rw [hrun]
  exact run_pullBatches_of_batches h.loop (by omega)

end StoreM

/-- The trees of the layout are the same in both stores, and so are the sequences. -/
structure Store.SameTrees (store store' : Store) : Prop where
  trees : ∀ name ∈ Layout.trees.map Prod.fst,
    store.engine.committed.get? name = store'.engine.committed.get? name
  lastEtag : store.node.lastEtag = store'.node.lastEtag
  lastCounterId : store.node.lastCounterId = store'.node.lastCounterId

theorem Store.Holds.sameTrees {store store' : Store} {serverId : ServerId} {c : Catalog}
    (h : store.Holds serverId c) (h' : store'.Holds serverId c) : store.SameTrees store' where
  trees := fun _ hname => h.keeps.shows.get?_eq h'.keeps.shows hname
  lastEtag := h.keeps.lastEtag.trans h'.keeps.lastEtag.symm
  lastCounterId := h.keeps.lastCounterId.trans h'.keeps.lastCounterId.symm

/-- Exchanges do to a store what one message did that left `whole` with this outcome; `since` is
where the cursor stood, and `highest` the greatest indexed etag of the source. -/
structure Store.PullsWhole (store : Store) (source : ServerId) (origin : Origin)
    (since highest : Etag) (outcome : Applied) (whole : Store) : Prop where
  /-- However the clock moves, an exchange ends without an error. -/
  ends : ∀ moves, ∃ batches deferred store',
    StoreM.Exchanges source origin moves store batches deferred store'
  /-- With the clock of the store the batches are what the exchange does. -/
  run : ∀ batches deferred store',
    StoreM.Exchanges source origin (fun _ clock => clock) store batches deferred store' →
      (StoreM.replicate source origin).run store = .ok batches.sum store'
  /-- An exchange is not cut short if no look is later than the timeout. -/
  in_time : ∀ moves started batches deferred store', (∀ clock, (moves 0 clock).now.1 = started) →
    (∀ round clock, (moves (round + 1) clock).now.1.toNat - started.toNat ≤
      store.node.config.timeoutMillis) →
    StoreM.Exchanges source origin moves store batches deferred store' → deferred = false
  /-- Exchanges up to one that is not cut short merge what the message merges, and leave what it
  leaves. -/
  whole : ∀ batches store', StoreM.Resumes source origin store batches store' →
    batches.sum = outcome.applied ∧ store'.SameTrees whole ∧
      Index.lastEtagFor store'.engine.snapshot source = .ok (max since highest)

namespace StoreM

variable {store whole : Store} {db : Database} {own source : ServerId} {c src : Catalog}
variable {feed : List FeedEntry} {outcome : Applied}

/-- The message with all entries behind the cursor is the pull of the whole feed. -/
theorem Faces.pullsWhole (h : Faces store (.apart db) own source c src feed)
    (hdb : db.Shows src.ledger) (hsrc : src.Sound)
    (hcounts : outcome.Counts own c (feedAfter feed (c.cursorFor source)))
    (hwhole : whole.Holds own (c.apply own ⟨source, feedAfter feed (c.cursorFor source)⟩)) :
    store.PullsWhole source (.apart db) (c.cursorFor source) (cursorAfter 0 feed) outcome
      whole where
  ends := by
    intro moves
    obtain ⟨batches, deferred, store', hbatches⟩ := exists_batches
      (h.withClock (moves 0 store.node.clock).now.2) (moves 0 store.node.clock).now.1
      fun round => moves (round + 1)
    exact ⟨batches, deferred, store', rfl, hbatches⟩
  run := by
    intro batches deferred store' hexchange
    obtain ⟨feed', hfeed', hcount, _⟩ := Catalog.exists_feed (t := ⟨.read, db⟩) hdb hsrc
    rw [← h.listed.unique hfeed'] at hcount
    exact run_replicate_of_exchanges hexchange h hcount
  in_time := by
    intro moves started batches deferred store' hstarted hintime hexchange
    refine hexchange.loop.not_deferred (h.withClock _) fun round clock => ?_
    rw [hstarted store.node.clock]
    exact hintime round clock
  whole := by
    intro batches store' hresumes
    obtain ⟨count, hpulled⟩ := hresumes.pulled_front h
    have hrest := hpulled.caughtUp rfl
    rw [Catalog.feedAfter_pull h.listed] at hrest
    -- Nothing is left behind the cursor, so the front that was pulled is the whole feed.
    have hfront : (feedAfter feed (c.cursorFor source)).take count =
        feedAfter feed (c.cursorFor source) :=
      List.take_of_length_le (List.drop_eq_nil_iff.1 hrest)
    have happlied := hpulled.applied
    have hholds := hpulled.holds
    rw [Catalog.pulled, hfront] at happlied
    rw [Catalog.pull, hfront] at hholds
    refine ⟨happlied.trans hcounts.applied.symm, hholds.sameTrees hwhole, ?_⟩
    have hcursor : Index.lastEtagFor store'.engine.snapshot source = _ :=
      Catalog.index_lastEtagFor hholds.keeps.shows source
    rw [hcursor, Catalog.cursorFor_apply_self, cursorAfter_feedAfter]

end StoreM

namespace Stage

/-- Whatever the states of a source and a target with engines of their own, the entries of the
source behind the cursor of the target can be pulled in batches of any size and by exchanges that
are cut short anywhere: in the end the target is as one message with all of them leaves it. -/
theorem Reachable.exchange_as_one_message {stage : Stage} {target : Store}
    (hsource : Reachable stage) (htarget : Reachable (idle target)) (notify : Bool) :
    ∃ since highest entries,
      Index.lastEtagFor target.engine.snapshot stage.node.serverId = .ok since ∧
      Index.lastIndexedEtag stage.reader = .ok highest ∧
      Index.feed stage.reader since = .ok (entries.map .ok) ∧
      (target.HasRoom entries.length → ∃ outcome whole,
        (StoreM.transact notify (Write.applyMessage ⟨stage.node.serverId, entries⟩)).run target =
          .ok outcome whole ∧
        target.PullsWhole stage.node.serverId (.apart stage.engine.committed) since highest outcome
          whole) := by
  obtain ⟨src, _, hpresents⟩ := hsource.presents
  obtain ⟨c, _, hpresents'⟩ := htarget.presents
  obtain ⟨hunlocked, hvalid⟩ : _ ∧ _ := htarget.ready
  have hholds : target.Holds target.node.serverId c := ⟨hpresents'.keeps, hunlocked, rfl, hvalid⟩
  have hshows : stage.reader.trees.Shows src.ledger := hpresents.keeps.shows
  have hsrc : src.Sound := hpresents.keeps.sound
  obtain ⟨feed, hfeed, _, hafter, _⟩ := Catalog.exists_feed hshows hsrc
  have hnamed : ∀ e ∈ feed, Named e.group e.name := fun e he =>
    hpresents.named_base _ _ ((hfeed.mem_iff e).1 he)
  refine ⟨_, _, _, Catalog.index_lastEtagFor (t := target.engine.snapshot) hholds.keeps.shows _,
    hfeed.index_lastIndexedEtag hshows hsrc, hafter _, fun hroom => ?_⟩
  rw [hholds.hasRoom_iff] at hroom
  obtain ⟨outcome, whole, hrun, hcounts, hwhole⟩ := StoreM.returns_applyMessage hholds notify
    ⟨stage.node.serverId, feedAfter feed (c.cursorFor stage.node.serverId)⟩
    (fun e he => hnamed e (List.mem_filter.1 he).1) hroom
  have hfaces : StoreM.Faces target (.apart stage.engine.committed) target.node.serverId
      stage.node.serverId c src feed :=
    ⟨hholds, Origin.feeds_apart hpresents.keeps.shows hsrc hfeed, hfeed, hnamed, hroom⟩
  exact ⟨outcome, whole, hrun, hfaces.pullsWhole hpresents.keeps.shows hsrc hcounts hwhole⟩

/-- A node that pulls three entries at a time. -/
def pullingOpening : Opening where
  config := { replicationBatchSize := 3 }
  fresh := .ofByte 2

/-- The first batch ends between the slots of a deleted counter and its tombstone. -/
theorem pulls_a_deletion_in_two_batches : ∃ stage target entries outcome whole batches store',
    Reachable stage ∧ entries.length = 4 ∧ target.node.config.replicationBatchSize = 3 ∧
    (StoreM.transact true (Write.applyMessage ⟨stage.node.serverId, entries⟩)).run target =
      .ok outcome whole ∧
    StoreM.Resumes stage.node.serverId (.apart stage.engine.committed) target batches store' ∧
    batches.sum = outcome.applied ∧ store'.SameTrees whole := by
  obtain ⟨engine, s, _, hreachable, hfeed⟩ := exists_afterCalls_of_finds plainOpening rfl
    (by decide) (by decide)
    [.store "group" "a" 1, .store "group" "b" 2, .delete "group" "a"] (by decide)
    (fun engine s => ((Index.feed (s.node.commit engine s.writer false).2.snapshot 0).map
      List.length).toOption = some 4) (by decide +kernel)
  have hcommitted := hreachable.step (.commit false)
  obtain ⟨target, hstart, hholds⟩ := Opening.exists_start_empty
    (rfl : pullingOpening.config.validate = .ok ()) (by decide) (by decide)
  have htarget : ((pullingOpening.start .empty).toOption.map fun target =>
      (target.node.config.replicationBatchSize, decide (target.HasRoom 4))) = some (3, true) := by
    decide +kernel
  rw [hstart] at htarget
  obtain ⟨hbatch, hroom⟩ := Prod.mk.inj (Option.some.inj htarget)
  obtain ⟨since, highest, entries, hsince, _, hentries, hwhole⟩ :=
    hcommitted.exchange_as_one_message (.start hstart (by decide)) true
  have hzero : Index.lastEtagFor target.engine.snapshot
      (s.node.commit engine s.writer false).1.serverId = .ok 0 :=
    Catalog.index_lastEtagFor (t := target.engine.snapshot) hholds.keeps.shows _
  obtain rfl : 0 = since := Except.ok.inj (hzero.symm.trans hsince)
  have hentries' : Index.feed (s.node.commit engine s.writer false).2.snapshot 0 =
      .ok (entries.map .ok) := hentries
  have hfour : entries.length = 4 := by
    rw [hentries'] at hfeed
    simpa [Except.map, Except.toOption] using hfeed
  obtain ⟨outcome, whole, hrun, hpulls⟩ := hwhole (hfour ▸ of_decide_eq_true hroom)
  -- With a clock that always shows the same time no exchange is cut short.
  obtain ⟨batches, deferred, store', hexchange⟩ := hpulls.ends fun _ _ => {}
  obtain rfl : deferred = false := hpulls.in_time _ _ batches deferred store' (fun _ => rfl)
    (fun _ _ => (Nat.sub_self _).trans_le (Nat.zero_le _)) hexchange
  have hresumes := StoreM.Resumes.last hexchange
  obtain ⟨hsum, hsame, _⟩ := hpulls.whole batches store' hresumes
  exact ⟨_, target, entries, outcome, whole, batches, store', hcommitted, hfour, hbatch, hrun,
    hresumes, hsum, hsame⟩

end Stage

end CounterMesh
