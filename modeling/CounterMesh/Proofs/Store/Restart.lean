import CounterMesh.Proofs.Engine.Files
import CounterMesh.Proofs.Store.Client
import CounterMesh.Proofs.Store.Indexes
import CounterMesh.Proofs.Store.Saved
import CounterMesh.Store.Shutdown

/-!
# Restarts

A client works on a store in a file. At any time between two writers it may shut
the store down and open it again from its file. It cannot tell: whatever it does
afterwards is answered as if the store had stayed open. Everything that an
answer depends on is in the file, since the sequences and the id of the node are
recorded in the trees, and every tree is loaded as it was saved.
-/

namespace CounterMesh

/-- A deed, or a restart: the store is shut down and opened again from its file, with the settings
and the clock that it had. Its signal is a new one, and a fresh id is at hand for a store that has
none. -/
inductive Act (α : Type) where
  | deed (deed : Deed α)
  | restart (fresh : ServerId) (signal : Signal)

namespace Act

variable {α : Type} {m : Type → Type} [Monad m] [Files m]

/-- An act on a store that is saved to the file at `path`. -/
def cutOnce (path : String) : Act α → Store → ExceptT Error m (List (Answer α) × Store)
  | .deed d, store => return d.run store
  | .restart fresh signal, store => do
    let (_, store) ← ExceptT.lift (m := m) store.shutdown
    let opening : Opening :=
      { config := store.node.config, clock := store.node.clock, signal, fresh }
    let store ← ExceptT.mk (m := m) (opening.startFile path)
    return ([], store)

/-- A run that is cut by its restarts. -/
def cut (path : String) : List (Act α) → Store → ExceptT Error m (List (List (Answer α)) × Store)
  | [], store => return ([], store)
  | act :: rest, store => do
    let (answers, store) ← cutOnce path act store
    let (later, store) ← cut path rest store
    return (answers :: later, store)

/-- An act on a store that stays open. -/
def uncutOnce : Act α → Store → List (Answer α) × Store
  | .deed d, store => d.run store
  | .restart _ _, store => ([], store)

/-- The same run on a store that stays open. -/
def uncut : List (Act α) → Store → List (List (Answer α)) × Store
  | [], store => ([], store)
  | act :: rest, store =>
    let (answers, store) := uncutOnce act store
    let (later, store) := uncut rest store
    (answers :: later, store)

/-- Every request of the run takes place while both sequences have room for its writes. -/
def Fit : List (Act α) → Store → Prop
  | [], _ => True
  | .deed d :: rest, store => d.Fits store ∧ Fit rest (d.run store).2
  | .restart _ _ :: rest, store => Fit rest store

instance decidableFit : (acts : List (Act α)) → (store : Store) → Decidable (Fit acts store)
  | [], _ => .isTrue trivial
  | .deed d :: rest, store =>
    have := decidableFit rest (d.run store).2
    inferInstanceAs (Decidable (_ ∧ _))
  | .restart _ _ :: rest, store => decidableFit rest store

end Act

/-- The writer is at work on a sound catalog of its node. -/
def Session.Stands (s : Session) (home : Node) : Prop :=
  ∃ c : Catalog, c.Sound ∧ c.Records home.serverId ∧ s.Shows home c.ledger

/-- The store holds a sound catalog, and has this id and this file. -/
def Store.Stands (store : Store) (serverId : ServerId) (file : Option String) : Prop :=
  (∃ c, store.Holds serverId c) ∧ store.node.file = file

section Stands

variable {α : Type} {s : Session} {home : Node} {c : Catalog}

theorem Session.Reached.stands {purge : Prop} {k : Nat} (h : s.Reached home purge c k)
    (hs : c.Sound) (hr : c.Records home.serverId) (hroom : c.HasRoom k) : s.Stands home := by
  obtain ⟨c', hevolves, _, hshows⟩ := h
  exact ⟨c', hevolves.sound hs hroom, hevolves.records hr, hshows⟩

theorem Session.Stands.close (h : s.Stands home) {engine : Engine}
    (hhome : home.Keeps engine.committed c) (hvalid : home.config.validate = .ok ())
    (notify kept : Bool) : (s.close engine notify kept).Stands home.serverId home.file := by
  obtain ⟨c', hs, hr, hshows⟩ := h
  have hid := hshows.serverId_eq
  have hvalid' : s.node.config.validate = .ok () := by rw [hshows.config_eq, hvalid]
  have hfile : s.node.file = home.file := by rw [hshows.node]
  cases kept with
  | true =>
      obtain ⟨hkeeps, hunlocked⟩ := hshows.commit hs (hid.symm ▸ hr) hhome.serverId engine notify
      exact ⟨⟨c', hkeeps, hunlocked, hid, hvalid'⟩, hfile⟩
  | false =>
      obtain ⟨hkeeps, hunlocked⟩ := hshows.drop engine hhome
      exact ⟨⟨c, hkeeps, hunlocked, hid, hvalid'⟩, hfile⟩

/-- A call leaves the same session with its reply and without. -/
theorem Call.leaving_reply (call : Call) (s : Session) :
    leaving (call.reply : Write (Reply α)) s = call.finish s := by
  cases call with
  | delete group name => exact leaving_map _ _ s
  | recordPeerEtag serverId etag => exact leaving_map _ _ s
  | updateReplication document => exact leaving_map _ _ s
  | _ => exact (leaving_map _ _ s).trans (leaving_discard _ s).symm

theorem Request.stands_attempt (request : Request α) (h : s.Stands home)
    (hnode : home.serverId ≠ .nil) (hetag : s.writer.lastEtag.toNat + request.writes < UInt64.size)
    (hid : s.writer.lastCounterId.toNat + request.writes < UInt64.size) :
    (attempt request.operation s).2.Stands home := by
  cases request with
  | call call =>
      obtain ⟨c, hs, hr, hshows⟩ := h
      rw [hshows.lastEtag] at hetag
      rw [hshows.lastCounterId] at hid
      have hroom : c.HasRoom call.writes := ⟨hetag, hid⟩
      have hreached := call.finish_of_leaves (call.leaves_operation hshows hs hroom hnode)
      rw [← call.leaving_reply (α := α)] at hreached
      exact hreached.stands hs hr hroom
  | ask question =>
      have hleaves : Leaves (Request.ask question).operation s fun s' => s'.Stands home := by
        refine Write.returns_serverId.bind_leaves ?_
        rintro serverId _ ⟨_, rfl⟩
        refine (Write.leaves_query _).bind ?_ ?_
        · rintro _ rfl
          exact h
        · rintro _ _ rfl
          exact .pure h
      exact hleaves.leaving

theorem Request.returns_all (requests : List (Request α)) (h : s.Stands home)
    (hnode : home.serverId ≠ .nil) (hfit : Request.Fit requests s) :
    Returns (all requests) s fun _ s' => s'.Stands home := by
  induction requests generalizing s with
  | nil => exact .pure h
  | cons request rest ih =>
      obtain ⟨hetag, hid, hrest⟩ := hfit
      have hfirst : Returns (modifyGet (attempt request.operation) : Write (Answer α)) s
          fun _ s' => s' = (attempt request.operation s).2 := ⟨_, _, rfl, rfl⟩
      rw [all, List.mapM_cons]
      refine hfirst.bind ?_
      rintro _ _ rfl
      refine (ih (request.stands_attempt h hnode hetag hid) hrest).bind fun _ _ h' => .pure h'

variable {store : Store} {serverId : ServerId} {file : Option String}

theorem StoreM.leaves_transact {notify : Bool} {operation : Write α} {keep : α → Bool}
    (h : store.Stands serverId file)
    (hop : ∀ c : Catalog, c.Sound → c.Records store.node.serverId →
      Session.Shows ⟨store.node, store.node.firstWriter store.engine.committed⟩ store.node
        c.ledger →
      Leaves operation ⟨store.node, store.node.firstWriter store.engine.committed⟩
        fun s => s.Stands store.node) :
    Leaves (transact notify operation keep) store fun store' => store'.Stands serverId file := by
  obtain ⟨⟨c, hholds⟩, rfl⟩ := h
  obtain rfl := hholds.serverId_eq
  have hrun := run_transact_of_unlocked notify operation keep hholds.unlocked
  have hkeeps : store.node.Keeps ({ store.engine with locked := true } : Engine).committed c :=
    hholds.keeps
  rcases hop c hholds.keeps.sound hholds.records hholds.keeps.shows_firstWriter with
    ⟨a, s, hok, hstands⟩ | ⟨e, s, herror, hstands⟩
  · rw [hok] at hrun
    exact .inl ⟨_, _, hrun, hstands.close hkeeps hholds.valid _ _⟩
  · rw [herror] at hrun
    exact .inr ⟨_, _, hrun, hstands.close hkeeps hholds.valid _ _⟩

theorem StoreM.leaves_purgeBatches (fuel : Nat) (h : store.Stands serverId file) :
    Leaves (purgeBatches fuel) store fun store' => store'.Stands serverId file := by
  induction fuel generalizing store with
  | zero => exact .pure h
  | succ fuel ih =>
      have hbatch : Leaves (transact false Write.purgeBatch id) store
          fun store' => store'.Stands serverId file := by
        refine leaves_transact h fun c hs hr hshows => ?_
        have hroom : c.HasRoom 0 := ⟨c.lastEtag.toNat_lt, c.lastCounterId.toNat_lt⟩
        exact (Write.reached_purgeBatch ⟨c, .refl 0 c, id, hshows⟩ hs hroom).leaves
          fun _ _ hreached => hreached.stands hs hr hroom
      refine hbatch.bind (fun _ => id) fun any _ h' => ?_
      cases any with
      | true => exact (ih h').bind (fun _ => id) fun _ _ h'' => .pure h''
      | false => exact .pure h'

theorem Deed.leaves_operation (deed : Deed α) (h : store.Stands serverId file)
    (hfits : deed.Fits store) :
    Leaves deed.operation store fun store' => store'.Stands serverId file := by
  cases deed with
  | write requests notify keep =>
      have hnode : store.node.serverId ≠ .nil := h.1.elim fun c hholds => hholds.keeps.serverId
      refine StoreM.leaves_transact h fun c hs hr hshows => ?_
      exact (Request.returns_all requests ⟨c, hs, hr, hshows⟩ hnode hfits).leaves
        fun _ _ => id
  | purge =>
      have hpurge : Leaves StoreM.purge store fun store' => store'.Stands serverId file :=
        Returns.get.bind_leaves (by
          rintro _ _ ⟨rfl, rfl⟩
          exact StoreM.leaves_purgeBatches _ h)
      exact hpurge.bind (fun _ => id) fun _ _ h' => .pure h'
  | ask question =>
      exact Returns.get.bind_leaves (by
        rintro _ _ ⟨rfl, rfl⟩
        exact .pure h)
  | setClock clock =>
      obtain ⟨⟨c, hholds⟩, hfile⟩ := h
      have hmodify : Returns (StoreM.modifyNode fun node => { node with clock }) store
          fun _ store' => store'.Stands serverId file :=
        ⟨_, _, rfl, ⟨c, hholds.outside clock store.node.signal⟩, hfile⟩
      exact hmodify.bind_leaves fun _ _ h' => .pure h'

theorem Deed.stands_run (deed : Deed α) (h : store.Stands serverId file)
    (hfits : deed.Fits store) : (deed.run store).2.Stands serverId file := by
  have hattempt := (deed.leaves_operation h hfits).leaving
  rw [leaving] at hattempt
  rw [run]
  generalize attempt deed.operation store = r at hattempt
  obtain ⟨_ | _, store'⟩ := r <;> exact hattempt

end Stands

section Files

variable {path name : String} {disk : Disk} {store : Store}

/-- The opening as it is when the store is saved to the file at `path`. -/
def Opening.at (opening : Opening) (path : String) : Opening := { opening with file := some path }

theorem Opening.run_startFile {opening : Opening} {db : Database}
    (hdb : (disk.read path).database = .ok db) :
    (opening.startFile path : StateM Disk _).run disk =
      ((opening.at path).start (.ofDatabase db), disk) := by
  have hrun : (opening.startFile path : StateM Disk _).run disk =
      ((disk.read path).database >>= fun db => (opening.at path).start (.ofDatabase db), disk) :=
    rfl
  rw [hrun, hdb]
  rfl

/-- A missing file stands for a store without trees. -/
theorem Opening.run_startFile_of_missing (opening : Opening) (disk : Disk)
    (hpath : Disk.follow path = .file name) (hmissing : disk.get? name = none) :
    (opening.startFile path : StateM Disk _).run disk =
      ((opening.at path).start .empty, disk) := by
  refine run_startFile ?_
  rw [Disk.read_of_missing hpath hmissing]
  rfl

/-- A saved file is opened with the trees that were saved. -/
theorem Opening.run_startFile_of_saved (opening : Opening) (disk : Disk)
    (hpath : Disk.follow path = .file name) {db : Database} (hdense : db.Dense) :
    (opening.startFile path : StateM Disk _).run
        (OrdMap.insert disk name (Bytes.ofText db.save)) =
      ((opening.at path).start (.ofDatabase db), disk.insert name (Bytes.ofText db.save)) :=
  run_startFile (disk.database_insert hpath (Database.ofFile_save hdense))

/-- A shutdown saves what the store has committed. -/
theorem Store.run_shutdown (store : Store) (disk : Disk) (hpath : Disk.follow path = .file name)
    (hfile : store.node.file = some path) :
    ∃ outcome, (store.shutdown : StateM Disk _).run disk =
      ((outcome, { store with node :=
        { store.node with signal := store.node.signal.close.2, sweeper := .stopped } }),
        disk.insert name (Bytes.ofText store.engine.committed.save)) := by
  have hwrite := disk.run_write hpath (Bytes.ofText store.engine.committed.save)
  refine ⟨shutdownOutcome store.node.config.name [store.node.signal.close.1, .ok ()], ?_⟩
  rw [shutdown, StateT.run_bind, flush]
  simp only [hfile]
  rw [StateT.run_bind, hwrite]
  rfl

end Files

namespace Act

variable {α : Type} {path name : String} {serverId : ServerId} {store kept : Store}

/-- Steps one after another on a disk. -/
theorem run_bind_ok {β γ : Type} {step : ExceptT Error (StateM Disk) β}
    {next : β → ExceptT Error (StateM Disk) γ} {b : β} {disk disk' : Disk}
    (h : step.run.run disk = (.ok b, disk')) :
    (step >>= next).run.run disk = (next b).run.run disk' := by
  rw [ExceptT.run_bind, StateT.run_bind, h]
  rfl

theorem run_lift {β : Type} {step : StateM Disk β} {b : β} {disk disk' : Disk}
    (h : step.run disk = (b, disk')) :
    (ExceptT.lift step : ExceptT Error (StateM Disk) β).run.run disk = (.ok b, disk') := by
  rw [ExceptT.run_lift, StateT.run_map, h]
  rfl

/-- A store that is opened on the trees of another one, with its settings and its clock, is like
it. -/
theorem exists_start_alike (opening : Opening) (h : store.Stands serverId opening.file)
    (hdense : store.engine.committed.Dense) (hconfig : opening.config = store.node.config)
    (hclock : opening.clock = store.node.clock) (hrequested : opening.requested ≠ some .nil) :
    ∃ store', opening.start (.ofDatabase store.engine.committed) = .ok store' ∧
      store.Alike store' := by
  obtain ⟨⟨c, hholds⟩, hfile⟩ := h
  have hvalid : opening.config.validate = .ok () := by rw [hconfig, hholds.valid]
  refine ⟨_, Opening.start_again_eq hholds.keeps.shows hholds.keeps.sound hholds.records hvalid
    hrequested, ⟨hconfig, hholds.serverId_eq.symm, hclock, hholds.keeps.lastEtag.symm,
      hholds.keeps.lastCounterId.symm, hfile.symm⟩, ?_, hdense⟩
  rw [Engine.ofDatabase, ← hholds.unlocked]

/-- A restart opens a store that is like the one that was shut down. -/
theorem run_restart (hpath : Disk.follow path = .file name) (h : store.Stands serverId (some path))
    (halike : store.Alike kept) (fresh : ServerId) (signal : Signal) (disk : Disk) :
    ∃ kept' disk', (cutOnce (α := α) (m := StateM Disk) path (.restart fresh signal) kept).run.run
        disk = (.ok ([], kept'), disk') ∧ store.Alike kept' := by
  have hfile : kept.node.file = some path := halike.node.file.trans h.2
  obtain ⟨outcome, hshutdown⟩ := kept.run_shutdown disk hpath hfile
  let opening : Opening := { config := kept.node.config, clock := kept.node.clock, signal, fresh }
  obtain ⟨kept', hstart, halike'⟩ := exists_start_alike (opening.at path) h halike.dense
    halike.node.config halike.node.clock nofun
  have hopen := opening.run_startFile_of_saved disk hpath (halike.engine ▸ halike.dense)
  rw [halike.engine] at hopen hshutdown
  rw [hstart] at hopen
  refine ⟨kept', OrdMap.insert disk name (Bytes.ofText store.engine.committed.save), ?_, halike'⟩
  rw [cutOnce, run_bind_ok (run_lift hshutdown)]
  exact run_bind_ok hopen

/-- A run that is cut by restarts has the same answers as the run that is not, and leaves a store
that is like the one that stayed open. -/
theorem cut_alike (hpath : Disk.follow path = .file name) (acts : List (Act α)) (disk : Disk)
    (h : store.Stands serverId (some path)) (halike : store.Alike kept) (hfit : Fit acts store) :
    ∃ kept' disk', (cut (m := StateM Disk) path acts kept).run.run disk =
        (.ok ((uncut acts store).1, kept'), disk') ∧ (uncut acts store).2.Alike kept' := by
  induction acts generalizing store kept disk with
  | nil => exact ⟨kept, disk, rfl, halike⟩
  | cons act rest ih =>
      cases act with
      | deed deed =>
          obtain ⟨hfits, hrest⟩ := hfit
          obtain ⟨hanswers, halike'⟩ := deed.alike_run halike
          obtain ⟨kept', disk', hrun, hlast⟩ := ih disk (deed.stands_run h hfits) halike' hrest
          refine ⟨kept', disk', ?_, hlast⟩
          have hfirst : (cutOnce (m := StateM Disk) path (.deed deed) kept).run.run disk =
              (.ok ((deed.run store).1, (deed.run kept).2), disk) := by
            rw [← hanswers]
            rfl
          rw [cut, run_bind_ok hfirst]
          exact run_bind_ok hrun
      | restart fresh signal =>
          obtain ⟨opened, disk₁, hfirst, halike'⟩ := run_restart hpath h halike fresh signal disk
          obtain ⟨kept', disk', hrun, hlast⟩ := ih disk₁ h halike' hfit
          refine ⟨kept', disk', ?_, hlast⟩
          rw [cut, run_bind_ok hfirst]
          exact run_bind_ok hrun

/-- Restarts cannot be told. On a store that starts from a missing file, whatever a client does has
the same answers, those to questions included, with restarts in between and without, as long as the
sequences have room for it. At the end both stores show the same and are ready for the same writer;
they differ in the time of the last commit, the subscriptions, the signal and the sweeper only. -/
theorem cut_eq_uncut {opening : Opening} {disk disk' : Disk} (hpath : Disk.follow path = .file name)
    (hmissing : disk.get? name = none) (hfresh : opening.fresh ≠ .nil)
    (hopen : (opening.startFile path : StateM Disk _).run disk = (.ok store, disk'))
    (acts : List (Act α)) (hfit : Fit acts store) :
    ∃ kept disk'', (cut (m := StateM Disk) path acts store).run.run disk' =
        (.ok ((uncut acts store).1, kept), disk'') ∧
      kept.view = (uncut acts store).2.view ∧ (uncut acts store).2.Alike kept ∧
      kept.node.openWriter kept.engine =
        (uncut acts store).2.node.openWriter (uncut acts store).2.engine := by
  rw [opening.run_startFile_of_missing disk hpath hmissing, Prod.mk.injEq] at hopen
  obtain ⟨hstart, rfl⟩ := hopen
  have hfile : store.node.file = some path := Opening.file_of_start hstart
  have hstands : store.Stands store.node.serverId (some path) :=
    ⟨⟨_, Opening.start_empty hstart hfresh⟩, hfile⟩
  have hdense := Opening.dense_start Database.dense_empty hstart
  obtain ⟨kept, disk'', hrun, halike⟩ :=
    cut_alike hpath acts disk hstands ⟨.refl store.node, rfl, hdense⟩ hfit
  exact ⟨kept, disk'', hrun, halike.view_eq, halike, halike.openWriter_eq⟩

/-- A counter is stored, deleted after a deletion that failed, and found among the deleted ones,
with a restart before every step. -/
theorem cut_of_deletion : ∃ (acts : List (Act (Option CounterId))) (store kept : Store)
    (answers : List (List (Answer (Option CounterId)))) (disk' disk'' : Disk),
    (plainOpening.startFile "counters.json" : StateM Disk _).run .empty = (.ok store, disk') ∧
    (cut (m := StateM Disk) "counters.json" acts store).run.run disk' =
      (.ok (answers, kept), disk'') ∧
    answers.map (List.map Except.toOption) =
      [[], [some (.action .add)], [], [none, some .done], [], [some (.told (some 1))]] := by
  let acts : List (Act (Option CounterId)) :=
    [.restart plainOpening.fresh {},
     .deed (.write [.call (.store "group" "name" 5)] true fun _ => true),
     .restart plainOpening.fresh {},
     .deed (.write [.call (.delete "group" "other"), .call (.delete "group" "name")] true
       fun _ => true),
     .restart plainOpening.fresh {},
     .deed (.ask fun view => Index.deletedId? view.reader "group" "name")]
  have hpath : Disk.follow "counters.json" = .file "counters.json" := rfl
  have hfits : ((plainOpening.at "counters.json").start .empty).toOption.all
      (fun store => decide (Fit acts store)) = true := by decide +kernel
  have hanswers : ((plainOpening.at "counters.json").start .empty).toOption.map
      (fun store => (uncut acts store).1.map (List.map Except.toOption)) =
      some [[], [some (.action .add)], [], [none, some .done], [],
        [some (.told (some 1))]] := by decide +kernel
  obtain ⟨store, hstart, _⟩ :=
    @Opening.exists_start_empty (plainOpening.at "counters.json") rfl (by decide) (by decide)
  rw [hstart] at hfits hanswers
  have hopen := plainOpening.run_startFile_of_missing .empty hpath rfl
  rw [hstart] at hopen
  obtain ⟨kept, disk'', hrun, _⟩ :=
    cut_eq_uncut hpath rfl (by decide) hopen acts (of_decide_eq_true hfits)
  exact ⟨acts, store, kept, _, _, disk'', hopen, hrun, Option.some.inj hanswers⟩

end Act

end CounterMesh
