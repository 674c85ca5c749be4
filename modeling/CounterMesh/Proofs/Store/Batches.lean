import CounterMesh.Proofs.Store.Client
import CounterMesh.Proofs.Store.Erasure
import CounterMesh.Proofs.Store.Listing
import Mathlib.Algebra.Order.Floor.Div

/-!
# Purges in batches

A purge of a store opens a writer for every batch, reads the clock again, and
ends with the first call that finds nothing. Every other call removes a
tombstone, so it ends for whatever clock. The batches take the expired tombstones
off the front of one list, and a batch that is removed does not change which of
the others have expired; while the clock is held, the batches together therefore
remove what a single call without a limit removes.
-/

namespace CounterMesh

/-- To filter out the first elements by what they are told apart by is to drop them. -/
theorem filter_notMem_take {α β : Type} [DecidableEq β] {list : List α} {key : α → β}
    (h : (list.map key).Nodup) (n : Nat) :
    (list.filter fun a => key a ∉ (list.take n).map key) = list.drop n := by
  have hparts : (list.take n ++ list.drop n).map key = list.map key := by rw [List.take_append_drop]
  rw [← hparts, List.map_append, List.nodup_append] at h
  obtain ⟨_, _, hdisjoint⟩ := h
  have hfront : ((list.take n).filter fun a => key a ∉ (list.take n).map key) = [] := by
    rw [List.filter_eq_nil_iff]
    exact fun a ha hnot => of_decide_eq_true hnot (List.mem_map_of_mem ha)
  have hback : ((list.drop n).filter fun a => key a ∉ (list.take n).map key) = list.drop n := by
    rw [List.filter_eq_self]
    exact fun a ha => decide_eq_true fun hmem =>
      hdisjoint _ hmem _ (List.mem_map_of_mem ha) rfl
  calc list.filter (fun a => key a ∉ (list.take n).map key)
    _ = (list.take n ++ list.drop n).filter fun a => key a ∉ (list.take n).map key := by
        rw [List.take_append_drop]
    _ = list.drop n := by rw [List.filter_append, hfront, hback, List.nil_append]

namespace Catalog.Entombs

variable {c : Catalog} {tombstones : List Tombstone}

/-- Every tombstone has an etag of its own, so that their number is a word. -/
theorem length_lt (h : c.Entombs tombstones) (hs : c.Sound) :
    tombstones.length < UInt64.size := by
  let etagOf := fun tombstone : Tombstone => (c.etagAt (.tombstone tombstone.counterId)).getD 0
  have hetag : ∀ tombstone ∈ tombstones,
      c.etagAt (.tombstone tombstone.counterId) = some (etagOf tombstone) := by
    intro tombstone hmem
    obtain ⟨etag, hetag⟩ := c.exists_valueAt_iff.1 ⟨_, (h.mem_iff _ _).1 hmem⟩
    show _ = some ((c.etagAt _).getD 0)
    rw [hetag]
    rfl
  have hpos : ∀ tombstone ∈ tombstones, 0 < etagOf tombstone := by
    intro tombstone hmem
    obtain ⟨value, hcell⟩ := c.etagAt_eq_some_iff.1 (hetag tombstone hmem)
    exact hs.etag_pos hcell
  have hnodup : (0 :: tombstones.map fun tombstone => (etagOf tombstone).toNat).Nodup := by
    rw [List.nodup_cons]
    constructor
    · intro hzero
      obtain ⟨tombstone, hmem, heq⟩ := List.mem_map.1 hzero
      exact absurd heq (Nat.ne_of_gt (UInt64.lt_iff_toNat_lt.1 (hpos tombstone hmem)))
    · rw [List.Nodup, List.pairwise_map]
      have hids := h.nodup
      rw [List.Nodup, List.pairwise_map] at hids
      refine hids.imp_of_mem fun {a b} ha hb hne heq => hne ?_
      have hplace := hs.etagAt_unique (hetag a ha)
        ((hetag b hb).trans (congrArg some (UInt64.toNat_inj.1 heq).symm))
      exact congrArg Place.counterId hplace
  have hrange : (0 :: tombstones.map fun tombstone => (etagOf tombstone).toNat) ⊆
      List.range UInt64.size := by
    intro n hn
    rw [List.mem_range]
    rcases List.mem_cons.1 hn with rfl | hn
    · decide
    · obtain ⟨tombstone, _, rfl⟩ := List.mem_map.1 hn
      exact (etagOf tombstone).toNat_lt
  have hlength := (hnodup.subperm hrange).length_le
  rwa [List.length_cons, List.length_map, List.length_range] at hlength

/-- A batch that is forgotten is dropped from the front of the tombstones that a test selects. -/
theorem filter_forgetAll (h : c.Entombs tombstones) (due : Tombstone → Bool) (n : Nat) :
    ((tombstones.filter fun tombstone => tombstone.counterId ∉
      ((tombstones.filter due).take n).map Tombstone.counterId).filter due) =
        (tombstones.filter due).drop n := by
  have hnodup : ((tombstones.filter due).map Tombstone.counterId).Nodup :=
    h.nodup.sublist (List.filter_sublist.map _)
  rw [List.filter_filter, ← filter_notMem_take hnodup n, List.filter_filter]
  exact List.filter_congr fun tombstone _ => Bool.and_comm ..

end Catalog.Entombs

/-- What a purge of these counters makes of a store. -/
structure Store.Purges (store store' : Store) (c : Catalog) (ids : List CounterId) : Prop where
  holds : store'.Holds store.node.serverId (c.forgetAll ids)
  config : store'.node.config = store.node.config
  clock : store.node.clock.held = true → store'.node.clock = store.node.clock
  others : ∀ name ∉ Layout.trees.map Prod.fst,
    store'.engine.committed.get? name = store.engine.committed.get? name

namespace Store.Purges

variable {store store' store'' : Store} {c : Catalog} {ids ids' : List CounterId}

theorem trans (h : store.Purges store' c ids) (h' : store'.Purges store'' (c.forgetAll ids) ids') :
    store.Purges store'' c (ids ++ ids') where
  holds := by
    rw [Catalog.forgetAll_append, ← h.holds.serverId_eq]
    exact h'.holds
  config := h'.config.trans h.config
  clock := fun hheld => (h'.clock ((h.clock hheld).symm ▸ hheld)).trans (h.clock hheld)
  others := fun name hname => (h'.others name hname).trans (h.others name hname)

/-- Purges of the same counters leave the same trees. -/
theorem committed_eq {other other' : Store} (h : store.Purges store' c ids)
    (h' : other.Purges other' c ids) (hsame : store.engine.committed = other.engine.committed) :
    store'.engine.committed = other'.engine.committed := by
  refine OrdMap.ext_get? fun name tree => ?_
  by_cases hname : name ∈ Layout.trees.map Prod.fst
  · rw [h.holds.keeps.shows.get?_eq h'.holds.keeps.shows hname]
  · rw [h.others name hname, h'.others name hname, hsame]

end Store.Purges

/-- The tombstones that have expired when the clock of a store is read next. -/
def Store.expired (store : Store) (tombstones : List Tombstone) : List Tombstone :=
  tombstones.filter (Tombstone.Expired store.node.config (ticksOf store.node.clock.now.1).toInt)

/-- How many tombstones a call of a purge on this store removes at most. -/
def Store.batchSize (store : Store) : Nat := store.node.config.deletedTombstonesInBatch.toNat

/-- The store with its clock set. -/
def Store.withClock (store : Store) (clock : Clock) : Store :=
  { store with node := { store.node with clock } }

/-- What a writer of a store holds after it purged these counters. -/
structure Session.Purged (s : Session) (store : Store) (c : Catalog) (ids : List CounterId) :
    Prop where
  shows : s.Shows store.node (c.forgetAll ids).ledger
  clock : s.node.clock = store.node.clock.now.2
  others : ∀ name ∉ Layout.trees.map Prod.fst,
    s.writer.transaction.trees.get? name = store.engine.committed.get? name

namespace StoreM

variable {store store' : Store} {serverId : ServerId} {c : Catalog} {tombstones : List Tombstone}

theorem now_of_held {clock : Clock} (h : clock.held = true) : clock.now.2 = clock := by
  rw [Clock.now, h]
  rfl

/-- What a purge did in a writer is what becomes of the store, unless it is not kept; and then
nothing was done. -/
theorem purges_close (h : store.Holds serverId c) {ids : List CounterId}
    (hids : ∀ id ∈ ids, c.Deleted id) {s : Session} (hs : s.Purged store c ids) {kept : Bool}
    (hkept : kept = true ∨ ids = []) :
    store.Purges (s.close { store.engine with locked := true } false kept) c ids := by
  have hconfig : s.node.config = store.node.config := hs.shows.config_eq
  have hid : s.node.serverId = store.node.serverId := hs.shows.serverId_eq
  have hheld : store.node.clock.held = true → s.node.clock = store.node.clock :=
    fun hheld => hs.clock.trans (now_of_held hheld)
  have hforgets : Catalog.Forgets c (c.forgetAll ids) :=
    Catalog.Forgets.refl.forgetAll fun id hid _ _ _ => hids id hid
  cases kept with
  | true =>
      have hevolves : Catalog.Evolves True 0 c (c.forgetAll ids) := hforgets.evolves (.refl 0 c)
      have hrecords := hevolves.records h.keeps.records
      obtain ⟨hkeeps, hunlocked⟩ := hs.shows.commit (hforgets.sound h.keeps.sound)
        (hid ▸ hrecords) h.keeps.serverId { store.engine with locked := true } false
      refine ⟨⟨hkeeps, hunlocked, hid, hconfig.symm ▸ h.valid⟩, hconfig, fun hclock => ?_,
        fun name hname => ?_⟩
      · have hsame := hheld hclock
        exact (now_of_held (hsame.symm ▸ hclock)).trans hsame
      · rw [← hs.others name hname]
        simp only [Session.close, if_true, Node.commit, Engine.commit, hs.shows.mode]
  | false =>
      obtain rfl : ids = [] := hkept.resolve_left Bool.false_ne_true
      obtain ⟨hkeeps, hunlocked⟩ := hs.shows.drop (c := c)
        { store.engine with locked := true } h.keeps
      refine ⟨⟨hkeeps, hunlocked, hid, hconfig.symm ▸ h.valid⟩, hconfig, hheld,
        fun name hname => ?_⟩
      simp only [Session.close, Bool.false_eq_true, if_false, Engine.drop, hs.shows.mode]

section Call

variable (h : store.Holds serverId c) (htombstones : c.Entombs tombstones)

include h htombstones

/-- A call of a purge in a new writer. -/
theorem purged_call : Returns Write.purgeBatch
    ⟨store.node, store.node.firstWriter store.engine.committed⟩ fun any s =>
      any = !((store.expired tombstones).take store.batchSize).isEmpty ∧
      s.Purged store c
        (((store.expired tombstones).take store.batchSize).map Tombstone.counterId) := by
  have hdue : (tombstones.filter fun tombstone => tombstone.date ≤
      ticksOf store.node.clock.now.1 - store.node.config.retentionTicks) =
        store.expired tombstones :=
    List.filter_congr fun tombstone _ => by
      rw [decide_eq_decide, Tombstone.expired_iff h.valid]
  have hpurge := Write.returns_purgeBatch h.keeps.shows_firstWriter h.keeps.sound htombstones rfl
  rw [hdue] at hpurge
  have hclock := Write.leaves_purgeBatch Write.apart_clock
    ⟨store.node, store.node.firstWriter store.engine.committed⟩
  obtain ⟨any, s, hrun, ⟨⟨hany, hshows⟩, hclock⟩⟩ := hpurge.and_ends hclock
  refine ⟨any, s, hrun, hany, hshows, hclock, fun name hname => ?_⟩
  have hreturns : Returns Write.purgeBatch
      ⟨store.node, store.node.firstWriter store.engine.committed⟩ fun _ s' => s' = s :=
    ⟨any, s, hrun, rfl⟩
  obtain ⟨_, _, _, rfl, hother⟩ := hreturns.and_ends
    (Write.leaves_purgeBatch (Write.apart_tree hname) _)
  exact hother

/-- A call of a purge in a writer of its own, which is kept if it found something. -/
theorem returns_purge_call (keep : Bool → Bool) (hkeep : keep true = true) :
    Returns (transact false Write.purgeBatch keep) store fun any store' =>
      any = !((store.expired tombstones).take store.batchSize).isEmpty ∧
      store.Purges store' c
        (((store.expired tombstones).take store.batchSize).map Tombstone.counterId) := by
  obtain ⟨any, s, hrun, hany, hpurged⟩ := purged_call h htombstones
  refine ⟨any, s.close { store.engine with locked := true } false (keep any), ?_, hany, ?_⟩
  · rw [run_transact_of_unlocked _ _ _ h.unlocked, hrun]
  · have hdeleted : ∀ id ∈ ((store.expired tombstones).take store.batchSize).map
        Tombstone.counterId, c.Deleted id := htombstones.deleted _ _
    refine purges_close h hdeleted hpurged ?_
    cases hbatch : (store.expired tombstones).take store.batchSize with
    | nil => exact .inr rfl
    | cons tombstone rest =>
        rw [hbatch] at hany
        exact .inl (hany ▸ hkeep)

end Call

/-- The loop of a purge, with the clock moved before every call: batches are committed one after
another until a call finds nothing. -/
inductive Rounds : (moves : Nat → Clock → Clock) → Store → (count : Nat) → Store → Prop where
  | last {moves : Nat → Clock → Clock} {store store' : Store}
      (h : (transact false Write.purgeBatch id).run
        (store.withClock (moves 0 store.node.clock)) = .ok false store') :
      Rounds moves store 0 store'
  | next {moves : Nat → Clock → Clock} {store store' store'' : Store} {count : Nat}
      (h : (transact false Write.purgeBatch id).run
        (store.withClock (moves 0 store.node.clock)) = .ok true store')
      (hrest : Rounds (fun round => moves (round + 1)) store' count store'') :
      Rounds moves store (count + 1) store''

/-- The rounds end for whatever clock, after at most as many batches as there are tombstones. -/
theorem exists_rounds (moves : Nat → Clock → Clock) (h : store.Holds serverId c)
    (htombstones : c.Entombs tombstones) :
    ∃ count store', Rounds moves store count store' ∧ count ≤ tombstones.length := by
  induction hlength : tombstones.length using Nat.strong_induction_on
    generalizing moves store c tombstones with
  | _ length ih =>
      have hmoved : (store.withClock (moves 0 store.node.clock)).Holds serverId c :=
        h.outside _ store.node.signal
      obtain ⟨any, store₁, hrun, hany, hpurges⟩ :=
        returns_purge_call hmoved htombstones id rfl
      cases hbatch : ((store.withClock (moves 0 store.node.clock)).expired tombstones).take
          (store.withClock (moves 0 store.node.clock)).batchSize with
      | nil =>
          rw [hbatch] at hany
          obtain rfl : any = false := hany
          exact ⟨0, store₁, .last hrun, Nat.zero_le _⟩
      | cons tombstone rest =>
          rw [hbatch] at hany hpurges
          obtain rfl : any = true := hany
          have hmem : tombstone ∈ tombstones :=
            List.mem_of_mem_filter (List.mem_of_mem_take (hbatch ▸ List.mem_cons_self))
          have hrest := htombstones.forgetAll ((tombstone :: rest).map Tombstone.counterId)
          have hshorter : (tombstones.filter fun other => other.counterId ∉
              (tombstone :: rest).map Tombstone.counterId).length < length := by
            rw [← hlength]
            refine List.length_filter_lt_length_iff_exists.2 ⟨tombstone, hmem, fun hnot => ?_⟩
            exact of_decide_eq_true hnot (List.mem_map_of_mem List.mem_cons_self)
          obtain ⟨count, store', hrounds, hle⟩ := ih _ hshorter (fun round => moves (round + 1))
            (hmoved.serverId_eq ▸ hpurges.holds) hrest rfl
          exact ⟨count + 1, store', .next hrun hrounds, by omega⟩

/-- A purge with enough fuel is the loop of its rounds. -/
theorem run_purgeBatches_of_rounds {count fuel : Nat}
    (h : Rounds (fun _ clock => clock) store count store') (hfuel : count < fuel) :
    (purgeBatches fuel).run store = .ok count store' := by
  generalize hmoves : (fun (_ : Nat) (clock : Clock) => clock) = moves at h
  induction h generalizing fuel with
  | @last _ store store' h =>
      subst hmoves
      have hcall : (transact false Write.purgeBatch id).run store = .ok false store' := h
      obtain ⟨fuel, rfl⟩ := Nat.exists_eq_succ_of_ne_zero (Nat.ne_of_gt hfuel)
      rw [purgeBatches, EStateM.run_bind]
      simp only [hcall]
      rfl
  | @next _ store store' _ _ h hrest ih =>
      subst hmoves
      have hcall : (transact false Write.purgeBatch id).run store = .ok true store' := h
      obtain ⟨fuel, rfl⟩ := Nat.exists_eq_succ_of_ne_zero (Nat.ne_of_gt (Nat.zero_lt_of_lt hfuel))
      rw [purgeBatches, EStateM.run_bind]
      simp only [hcall, if_true, EStateM.run_bind, ih (Nat.lt_of_succ_lt_succ hfuel) rfl]
      rfl

/-- One batch less of the tombstones is one round less. -/
private theorem sub_ceilDiv_add_one {k batch : Nat} (hk : 0 < k) (hbatch : 0 < batch) :
    (k - batch) ⌈/⌉ batch + 1 = k ⌈/⌉ batch := by
  rw [Nat.ceilDiv_eq_add_pred_div, Nat.ceilDiv_eq_add_pred_div]
  by_cases hle : batch ≤ k
  · rw [← Nat.add_div_right _ hbatch]
    congr 1
    omega
  · have hzero : (k - batch + batch - 1) / batch = 0 := Nat.div_eq_of_lt (by omega)
    have hone : (k + batch - 1) / batch = 1 := by
      rw [Nat.div_eq_iff hbatch]
      omega
    omega

/-- While the clock is held, the rounds remove the expired tombstones batch by batch. -/
theorem purges_of_rounds {count : Nat} (h : Rounds (fun _ clock => clock) store count store')
    (hholds : store.Holds serverId c) (htombstones : c.Entombs tombstones)
    (hheld : store.node.clock.held = true) :
    count = (store.expired tombstones).length ⌈/⌉ store.batchSize ∧
      store.Purges store' c ((store.expired tombstones).map Tombstone.counterId) := by
  generalize hmoves : (fun (_ : Nat) (clock : Clock) => clock) = moves at h
  induction h generalizing c tombstones with
  | @last _ store store' h =>
      subst hmoves
      have hcall : (transact false Write.purgeBatch id).run store = .ok false store' := h
      obtain ⟨any, store₁, hrun, hany, hpurges⟩ :=
        returns_purge_call hholds htombstones id rfl
      cases hcall.symm.trans hrun
      have hempty : (store.expired tombstones).take store.batchSize = [] :=
        List.isEmpty_iff.1 (by simpa using hany)
      have hnone : store.expired tombstones = [] :=
        (List.take_eq_nil_iff.1 hempty).resolve_left (Nat.ne_of_gt (Config.batch_pos hholds.valid))
      rw [hempty] at hpurges
      rw [hnone]
      exact ⟨(zero_ceilDiv _).symm, hpurges⟩
  | @next _ store store₁ store' count h hrest ih =>
      subst hmoves
      have hcall : (transact false Write.purgeBatch id).run store = .ok true store₁ := h
      obtain ⟨any, store₂, hrun, hany, hpurges⟩ :=
        returns_purge_call hholds htombstones id rfl
      cases hcall.symm.trans hrun
      have hclock := hpurges.clock hheld
      have hrest' : store₁.expired (tombstones.filter fun tombstone => tombstone.counterId ∉
          ((store.expired tombstones).take store.batchSize).map Tombstone.counterId) =
            (store.expired tombstones).drop store.batchSize := by
        rw [Store.expired, hpurges.config, hclock]
        exact htombstones.filter_forgetAll _ _
      obtain ⟨hcount, hpurges'⟩ := ih (hholds.serverId_eq ▸ hpurges.holds)
        (htombstones.forgetAll _) (hclock.symm ▸ hheld) rfl
      rw [hrest'] at hcount hpurges'
      have hsize : store₁.batchSize = store.batchSize := by
        rw [Store.batchSize, Store.batchSize, hpurges.config]
      have hsome : 0 < (store.expired tombstones).length := by
        rw [List.length_pos_iff]
        intro hnone
        rw [hnone, List.take_nil] at hany
        cases hany
      refine ⟨?_, ?_⟩
      · rw [hcount, hsize, List.length_drop]
        exact sub_ceilDiv_add_one hsome (Config.batch_pos hholds.valid)
      · have hparts : (store.expired tombstones).map Tombstone.counterId =
            ((store.expired tombstones).take store.batchSize).map Tombstone.counterId ++
              ((store.expired tombstones).drop store.batchSize).map Tombstone.counterId := by
          rw [← List.map_append, List.take_append_drop]
        rw [hparts]
        exact hpurges.trans hpurges'

/-- The fuel of a purge is enough for its rounds. -/
theorem run_purge_of_rounds {count : Nat} (h : Rounds (fun _ clock => clock) store count store')
    (hholds : store.Holds serverId c) : purge.run store = .ok count store' := by
  obtain ⟨tombstones, htombstones, hpairs⟩ :=
    Catalog.exists_entombs (t := store.engine.snapshot) hholds.keeps.shows
  obtain ⟨count', store'', h', hle⟩ := exists_rounds (fun _ clock => clock) hholds htombstones
  have hlong : (purgeBatches (count + count' + 1)).run store = .ok count store' :=
    run_purgeBatches_of_rounds h (by omega)
  have hlong' : (purgeBatches (count + count' + 1)).run store = .ok count' store'' :=
    run_purgeBatches_of_rounds h' (by omega)
  cases hlong.symm.trans hlong'
  have hdated := Index.memberCount_of_pairsFrom hpairs
  rw [List.length_map] at hdated
  rw [purge, EStateM.run_bind, EStateM.run_get]
  simp only [hdated, Except.toOption, Option.getD_some]
  exact run_purgeBatches_of_rounds h (Nat.lt_succ_of_le hle)

end StoreM

/-- The store with the greatest limit of a batch. -/
def Store.unlimited (store : Store) : Store :=
  { store with node := { store.node with
      config := { store.node.config with deletedTombstonesInBatch := 0xFFFFFFFFFFFFFFFF } } }

theorem Store.Holds.unlimited {store : Store} {serverId : ServerId} {c : Catalog}
    (h : store.Holds serverId c) : store.unlimited.Holds serverId c where
  keeps := ⟨h.keeps.shows, h.keeps.sound, h.keeps.records, h.keeps.lastEtag,
    h.keeps.lastCounterId, h.keeps.serverId⟩
  unlocked := h.unlocked
  serverId_eq := h.serverId_eq
  valid := Config.validate_withBatch h.valid (by decide)

namespace Stage

/-- In every state of a run between writers, the rounds of a purge end for whatever clock, and
those of the store's own clock are what the purge does. While the clock is held, their number is
that of the batches of expired tombstones, and they leave the committed trees that one call without
a limit leaves. -/
theorem Reachable.purges_in_batches {store : Store} (h : Reachable (idle store)) :
    (∀ moves, ∃ count store', StoreM.Rounds moves store count store') ∧
    (∀ count store', StoreM.Rounds (fun _ clock => clock) store count store' →
      StoreM.purge.run store = .ok count store') ∧
    (store.node.clock.held = true → ∃ tombstones, store.engine.snapshot.Entombs tombstones ∧
      ∃ store', StoreM.purge.run store =
          .ok ((store.expired tombstones).length ⌈/⌉ store.batchSize) store' ∧
        ∃ any store'', (StoreM.transact false Write.purgeBatch).run store.unlimited =
          .ok any store'' ∧ store'.engine.committed = store''.engine.committed) := by
  obtain ⟨base, cur, hpresents⟩ := h.presents
  obtain ⟨hunlocked, hvalid⟩ : _ ∧ _ := h.ready
  have hholds : store.Holds store.node.serverId base :=
    ⟨hpresents.keeps, hunlocked, rfl, hvalid⟩
  obtain ⟨tombstones, htombstones, _⟩ :=
    Catalog.exists_entombs (t := store.engine.snapshot) hholds.keeps.shows
  refine ⟨fun moves => ?_, fun count store' hrounds => StoreM.run_purge_of_rounds hrounds hholds,
    fun hheld => ?_⟩
  · obtain ⟨count, store', hrounds, _⟩ := StoreM.exists_rounds moves hholds htombstones
    exact ⟨count, store', hrounds⟩
  · obtain ⟨count, store', hrounds, _⟩ :=
      StoreM.exists_rounds (fun _ clock => clock) hholds htombstones
    obtain ⟨rfl, hpurges⟩ := StoreM.purges_of_rounds hrounds hholds htombstones hheld
    have hpurge := StoreM.run_purge_of_rounds hrounds hholds
    refine ⟨tombstones, htombstones.transaction hholds.keeps.shows, store', hpurge, ?_⟩
    obtain ⟨any, store'', hrun, _, hpurges'⟩ := StoreM.returns_purge_call hholds.unlimited
      htombstones (fun _ => true) rfl
    -- All expired tombstones are within the greatest limit.
    have hall : (store.unlimited.expired tombstones).take store.unlimited.batchSize =
        store.expired tombstones := by
      refine List.take_of_length_le ?_
      have hsize : store.unlimited.batchSize = 2 ^ 64 - 1 := rfl
      have hshorter := (List.filter_sublist (l := tombstones) (p := fun tombstone =>
        Tombstone.Expired store.node.config (ticksOf store.node.clock.now.1).toInt
          tombstone)).length_le
      have hlt := htombstones.length_lt hholds.keeps.sound
      simp only [UInt64.size] at hlt
      exact Nat.le_trans hshorter (by omega)
    rw [hall] at hpurges'
    exact ⟨any, store'', hrun, hpurges.committed_eq hpurges' rfl⟩

/-- Three counters were deleted, and two of them make a batch. -/
theorem purges_in_two_batches : ∃ store store' store'' any,
    StoreM.purge.run store = .ok 2 store' ∧
    (StoreM.transact false Write.purgeBatch).run store.unlimited = .ok any store'' ∧
    store'.engine.committed = store''.engine.committed := by
  obtain ⟨engine, s, _, hreachable, hcount⟩ := exists_afterCalls_of_finds
    { plainOpening with config := { tombstoneRetention := 0, deletedTombstonesInBatch := 2 } }
    rfl (by decide) (by decide)
    [.store "group" "a" 1, .store "group" "b" 2, .store "group" "c" 3, .delete "group" "a",
      .delete "group" "b", .delete "group" "c"] (by decide)
    (fun engine s => Returns StoreM.purge (Store.withClock
        ⟨(s.node.commit engine s.writer false).1, (s.node.commit engine s.writer false).2⟩
        (s.node.clock.set 2000000000000).hold) fun count _ => count = 2) (by decide +kernel)
  have hcommitted := hreachable.step (.commit false)
  obtain ⟨_, _, hheld⟩ := (hcommitted.step (.outside (s.node.clock.set 2000000000000).hold
    (s.node.commit engine s.writer false).1.signal)).purges_in_batches
  obtain ⟨tombstones, _, store', hrun, any, store'', hcall, heq⟩ := hheld rfl
  obtain ⟨_, _, hrun', rfl⟩ := hcount
  obtain ⟨_, rfl⟩ := EStateM.Result.ok.inj (hrun.symm.trans hrun')
  exact ⟨_, _, store'', any, hrun', hcall, heq⟩

end Stage

end CounterMesh
