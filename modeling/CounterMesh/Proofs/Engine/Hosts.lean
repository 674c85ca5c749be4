import CounterMesh.Proofs.Engine.Files
import CounterMesh.Proofs.Engine.Loading
import CounterMesh.Proofs.Engine.Scans
import CounterMesh.Proofs.Engine.Traffic

/-!
# Engines that are saved and loaded

On a host, clients work side by side on several engines. What an engine has
committed is saved to files, and engines are loaded from files, which others may
have written or damaged. Whatever happens, no key of a multi tree is left without
values, so that the keys that are counted and listed are those that hold one.
-/

namespace CounterMesh

/-- An engine without transactions. -/
def Traffic.fresh (db : Database) : Traffic := ⟨.ofDatabase db, fun _ => .unused⟩

/-- Engines with their clients, told apart by numbers, and the disk with their files. -/
structure Host where
  engine : Nat → Traffic
  disk : Disk

namespace Host

/-- An engine of the host moves on. -/
def set (host : Host) (number : Nat) (engine : Traffic) : Host :=
  { host with engine := Function.update host.engine number engine }

/-- One event on a host. -/
inductive Step : Host → Host → Prop where
  /-- A client of an engine begins a transaction, works in it or ends it. -/
  | traffic {host : Host} {number : Nat} {event : Traffic.Event} {engine : Traffic}
      (h : (host.engine number).Step event engine) : Step host (host.set number engine)
  /-- What an engine has committed is saved to a file. -/
  | save {host : Host} {number : Nat} {path : String} {disk : Disk}
      (h : host.disk.write? path
        (Bytes.ofText (host.engine number).engine.committed.save) = some disk) :
      Step host { host with disk }
  /-- An engine is loaded from a file, in place of the one before. -/
  | load {host : Host} {number : Nat} {path : String} {db : Database}
      (h : (host.disk.read path).database = .ok db) : Step host (host.set number (.fresh db))
  /-- The files are changed by others. -/
  | outside {host : Host} (disk : Disk) : Step host { host with disk }

/-- What comes about on a host that starts with empty engines and any files. -/
inductive Reachable : Host → Prop where
  | start (disk : Disk) : Reachable ⟨fun _ => .fresh .empty, disk⟩
  | step {host host' : Host} (h : Reachable host) (hstep : Step host host') : Reachable host'

/-- No key of a multi tree is left without values, in any engine and any open transaction. -/
def Dense (host : Host) : Prop := ∀ number, (host.engine number).Dense

variable {host host' : Host} {number number' : Nat} {engine : Traffic}

@[simp] theorem engine_set_self : (host.set number engine).engine number = engine :=
  Function.update_self ..

theorem engine_set_of_ne (h : number' ≠ number) :
    (host.set number engine).engine number' = host.engine number' := Function.update_of_ne h ..

theorem Dense.set (h : host.Dense) (hengine : engine.Dense) : (host.set number engine).Dense := by
  intro number'
  by_cases heq : number' = number
  · rw [heq, engine_set_self]
    exact hengine
  · rw [engine_set_of_ne heq]
    exact h number'

theorem dense_of_database {read : FileRead} {db : Database} (h : read.database = .ok db) :
    db.Dense := by
  unfold FileRead.database at h
  split at h
  · exact Database.dense_of_ofFile h
  · exact Database.dense_of_ofFile h
  · cases h

theorem Step.dense (hstep : Step host host') (h : host.Dense) : host'.Dense := by
  cases hstep with
  | traffic hstep => exact h.set (hstep.dense (h _))
  | save hsave => exact h
  | load hload => exact h.set ⟨dense_of_database hload, nofun⟩
  | outside disk => exact h

theorem Reachable.dense (h : Reachable host) : host.Dense := by
  induction h with
  | start disk => exact fun _ => ⟨Database.dense_empty, nofun⟩
  | step h hstep ih => exact hstep.dense ih

variable {id : Nat} {t : Transaction} {path name : String}

theorem phase_set_opened {moved : Engine} : ((host.set number
    ((host.engine number).set moved id (.opened t))).engine number).phase id = .opened t := by
  rw [engine_set_self, Traffic.phase_set_self]

/-- In an open transaction a client can perform operations in a row. -/
theorem Reachable.performed (h : Reachable host)
    (hid : (host.engine number).phase id = .opened t) (ops : List TreeOp) :
    ∃ host', Reachable host' ∧
      (host'.engine number).phase id = .opened (t.performAll ops).2 := by
  induction ops generalizing host t with
  | nil => exact ⟨host, h, hid⟩
  | cons op ops ih =>
      exact ih (h.step (.traffic (.perform hid op))) phase_set_opened

/-- On a free engine a client can commit whatever operations make of the committed trees. -/
theorem Reachable.transacted (h : Reachable host) (number id : Nat)
    (hid : (host.engine number).phase id = .unused)
    (hfree : (host.engine number).engine.locked = false) (ops : List TreeOp) :
    ∃ host', Reachable host' ∧ (host'.engine number).engine.committed =
      (Transaction.performAll ⟨.readWrite, (host.engine number).engine.committed⟩ ops).2.trees := by
  have hbegin : (host.engine number).engine.begin .readWrite =
      .ok (⟨.readWrite, (host.engine number).engine.committed⟩,
        { (host.engine number).engine with locked := true }) := by
    rw [Engine.begin, hfree]
    rfl
  obtain ⟨host', hrun, hopened⟩ :=
    (h.step (.traffic (.begin hid hbegin))).performed phase_set_opened ops
  refine ⟨_, hrun.step (.traffic (.commit hopened)), ?_⟩
  rw [engine_set_self, Traffic.engine_set, Engine.commit, Transaction.mode_performAll]

/-- Whatever bytes others have written at a path can be loaded, if they hold a database. -/
theorem Reachable.loaded (h : Reachable host) (hpath : Disk.follow path = .file name)
    {bytes : Bytes} {db : Database} (hload : Database.ofFile (some bytes) = .ok db)
    (number : Nat) :
    ∃ disk, Reachable (({ host with disk } : Host).set number (.fresh db)) :=
  ⟨_, (h.step (.outside _)).step (.load (host.disk.database_insert hpath hload))⟩

/-- What one engine has committed can be saved and loaded by another one. -/
theorem Reachable.reloaded (h : Reachable host) (hpath : Disk.follow path = .file name)
    (number number' : Nat) :
    ∃ disk, Reachable (({ host with disk } : Host).set number'
      (.fresh (host.engine number).engine.committed)) := by
  have hload := Database.ofFile_save (h.dense number).committed
  exact ⟨_, (h.step (.save (Disk.write?_of_file host.disk hpath _))).step
    (.load (host.disk.database_insert hpath hload))⟩

/-- The sample, as it is loaded. -/
def sample : Database := .ofList [("t", .multi (.ofList [([0x0a], .ofList [([0xff], ())])]))]

theorem load_sample : Database.load Database.Sample.document.render = .ok sample := by
  rw [Database.load_of_shape Database.Sample.shape]
  rfl

/-- A key is added, and another one that is emptied again. -/
def additions : List TreeOp :=
  [.multiAdd "t" [0xff] [], .multiAdd "t" [0xff] [0xff], .multiAdd "t" [0x61] [1],
    .multiDelete "t" [0x61] [1]]

/-- The sample with the key that was added. -/
def extended : Database := .ofList [("t", .multi (.ofList
  [([0x0a], .ofList [([0xff], ())]), ([0xff], .ofList [([], ()), ([0xff], ())])]))]

/-- Every scan is a filter of a whole tree, in byte order. On a host, whatever its clients do and
whatever is saved and loaded, no key of a multi tree is left without values, and every open
transaction counts and lists exactly the keys that hold one. -/
theorem Reachable.scans_filter (h : Reachable host) :
    (∀ t : Transaction, t.Filters) ∧ host.Dense ∧
      ∀ number id t, (host.engine number).phase id = .opened t → t.CountsHolding :=
  ⟨Transaction.filters, h.dense,
    fun number id _ hopened => Transaction.countsHolding ((h.dense number).opened id _ hopened)⟩

/-- The sample lists a key without values, which is left out when it is loaded, and a client empties
a key. What it commits is saved and loaded by a second engine, whose reader finds the two keys
that hold a value. -/
theorem scans_filter_of_emptied_keys : ∃ host t, Reachable host ∧
    (host.engine 1).phase 0 = .opened t ∧
    t.keysFrom "t" [] = .ok [[0x0a], [0xff]] ∧ t.entryCount "t" = .ok 2 ∧
    t.pairsFrom "t" [0x0b] = .ok [([0xff], []), ([0xff], [0xff])] ∧
    t.valuesStarting "t" [0xff] [0xff] = .ok [[0xff]] ∧
    (∀ t : Transaction, t.Filters) ∧ host.Dense ∧
      ∀ number id t, (host.engine number).phase id = .opened t → t.CountsHolding := by
  have hpath : Disk.follow "file" = .file "file" := rfl
  have hload := (Database.ofFile_ofText _).trans load_sample
  have hextended : (Transaction.performAll ⟨.readWrite, sample⟩ additions).2.trees = extended := by
    decide +kernel
  obtain ⟨disk, hrun⟩ := (Reachable.start .empty).loaded hpath hload 0
  obtain ⟨host, hrun, hcommitted⟩ := hrun.transacted 0 0 rfl rfl additions
  replace hcommitted := hcommitted.trans hextended
  obtain ⟨disk, hrun⟩ := hrun.reloaded hpath 0 1
  rw [hcommitted] at hrun
  have hrun := hrun.step (@Step.traffic _ 1 (.begin 0 .read) _ (.begin rfl rfl))
  exact ⟨_, _, hrun, rfl, rfl, rfl, rfl, rfl, hrun.scans_filter⟩

end Host

end CounterMesh
