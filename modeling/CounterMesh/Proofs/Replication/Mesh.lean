import CounterMesh.Proofs.Replication.Exchange
import CounterMesh.Proofs.Store.Calls

/-!
# Meshes of nodes

In a mesh every node has a store of its own. Nodes write, each in its own store,
and pull from each other, in any order. Between two events the clock and the
signal of a node may change.
-/

namespace CounterMesh

/-- Nodes, each with a store of its own. -/
abbrev Mesh (ι : Type) := ι → Store

namespace Mesh

/-- What happens in a mesh. -/
inductive Event (ι : Type) where
  | write (node : ι) (calls : List Call) (notify : Bool)
  /-- The target pulls from the source. -/
  | exchange (source target : ι)
  /-- The clock and the signal of a node are moved from outside. -/
  | outside (node : ι) (clock : Clock) (signal : Signal)

variable {ι : Type}

/-- The ids of the nodes. -/
def ids (mesh : Mesh ι) (i : ι) : ServerId := (mesh i).node.serverId

/-- How many entries the feed of a node has. -/
def feedLength (mesh : Mesh ι) (source : ι) : Nat :=
  ((mesh source).engine.snapshot.entryCount Layout.etagToKey).toOption.getD 0

section Steps

variable [DecidableEq ι] (mesh : Mesh ι)

/-- What an exchange reads. -/
def origin (source target : ι) : Origin :=
  if source = target then .shared else .apart (mesh source).engine.committed

/-- The target, as the state of this operation, pulls from the source. -/
def exchange (source target : ι) : StoreM Nat :=
  StoreM.replicate (mesh.ids source) (mesh.origin source target)

/-- The mesh after an event. -/
def next : Event ι → Mesh ι
  | .write node calls notify => Function.update mesh node ((mesh node).write calls notify)
  | .exchange source target =>
    Function.update mesh target ((mesh target).after (mesh.exchange source target))
  | .outside node clock signal => Function.update mesh node
      { mesh node with node := { (mesh node).node with clock, signal } }

/-- The sequences are words: an event takes place while those of the node that writes have room. -/
def HasRoom : Event ι → Prop
  | .write node calls _ => (mesh node).HasRoom (calls.map Call.writes).sum
  | .exchange source target => (mesh target).HasRoom (mesh.feedLength source)
  | .outside .. => True

instance : DecidablePred mesh.HasRoom
  | .write .. => inferInstanceAs (Decidable (Store.HasRoom _ _))
  | .exchange .. => inferInstanceAs (Decidable (Store.HasRoom _ _))
  | .outside .. => inferInstanceAs (Decidable True)

end Steps

/-- The states of nodes with ids of their own that were all opened on no trees. -/
inductive Reachable [DecidableEq ι] (allowed : Event ι → Prop) : Mesh ι → Prop where
  | start {opening : ι → Opening} {mesh : Mesh ι}
      (h : ∀ i, (opening i).start .empty = .ok (mesh i))
      (hfresh : ∀ i, (opening i).fresh ≠ .nil) (hdistinct : Function.Injective mesh.ids) :
      Reachable allowed mesh
  | next {mesh : Mesh ι} (h : Reachable allowed mesh) (event : Event ι) (hallowed : allowed event)
      (hroom : mesh.HasRoom event) : Reachable allowed (mesh.next event)

/-- The meshes that events in this order lead to, each of them allowed where it takes place. -/
inductive Leads [DecidableEq ι] (allowed : Mesh ι → Event ι → Prop) (mesh : Mesh ι) :
    Mesh ι → Prop where
  | refl : Leads allowed mesh mesh
  | next {mesh' : Mesh ι} (h : Leads allowed mesh mesh') (event : Event ι)
      (hallowed : allowed mesh' event) (hroom : mesh'.HasRoom event) :
      Leads allowed mesh (mesh'.next event)

/-- What a node holds in a slot. -/
def valueOf? (mesh : Mesh ι) (node : ι) (k : SlotName) : Except Error (Option Int64) :=
  Index.valueOf? (mesh node).engine.snapshot k.group k.name (.ofServer k.serverId) k.sign

/-- A reader of the node finds the counter among the deleted ones. -/
def IsDeleted (mesh : Mesh ι) (node : ι) (group name : String) : Prop :=
  (Index.deletedId? (mesh node).engine.snapshot group name).map Option.isSome = .ok true

/-- What a node tells in its feed about its slots, without the etags. -/
def told (mesh : Mesh ι) (node : ι) : List (SlotName × Int64) :=
  (mesh node).feed.map fun e => (e.slotName, e.value)

/-- Readers of two nodes find the same live counters, the same deleted counters and the same value
in every slot, tombstones among them. -/
structure Agree (mesh : Mesh ι) (i j : ι) : Prop where
  live : ∀ group name,
    (Index.liveId? (mesh i).engine.snapshot group name).map Option.isSome =
      (Index.liveId? (mesh j).engine.snapshot group name).map Option.isSome
  deleted : ∀ group name,
    (Index.deletedId? (mesh i).engine.snapshot group name).map Option.isSome =
      (Index.deletedId? (mesh j).engine.snapshot group name).map Option.isSome
  values : ∀ k, mesh.valueOf? i k = mesh.valueOf? j k

/-- The entries of a node that another one has not pulled yet. -/
def beyond (mesh : Mesh ι) (source target : ι) : Except Error (List FeedEntry) := do
  let since ← Index.lastEtagFor (mesh target).engine.snapshot (mesh.ids source)
  Index.changes (mesh source).engine.snapshot since (mesh.feedLength source)

section Exchanges

variable [DecidableEq ι] (mesh : Mesh ι) (source target : ι)

/-- How many entries an exchange would apply, unless it fails. -/
def applied : Option Nat :=
  match (mesh.exchange source target).run (mesh target) with
  | .ok applied _ => some applied
  | .error _ _ => none

/-- The entries that an exchange would leave behind the cursor. -/
def left : Except Error (List FeedEntry) := do
  let target' := (mesh target).after (mesh.exchange source target)
  let since ← Index.lastEtagFor target'.engine.snapshot (mesh.ids source)
  Index.changes (mesh source).engine.snapshot since (mesh.feedLength source)

/-- The entries that an exchange would pass. -/
def passed : Except Error (List FeedEntry) := do
  let entries ← mesh.beyond source target
  let left ← mesh.left source target
  return entries.filter (· ∉ left)

/-- An exchange has room, and would come to the end of the feed. -/
structure Completes : Prop where
  room : mesh.HasRoom (.exchange source target)
  left : mesh.left source target = .ok []

end Exchanges

instance (mesh : Mesh ι) (node : ι) (group name : String) :
    Decidable (mesh.IsDeleted node group name) := inferInstanceAs (Decidable (_ = _))

instance [DecidableEq ι] (mesh : Mesh ι) (source target : ι) :
    Decidable (mesh.Completes source target) :=
  decidable_of_iff (mesh.HasRoom (.exchange source target) ∧ mesh.left source target = .ok [])
    ⟨fun ⟨room, left⟩ => ⟨room, left⟩, fun h => ⟨h.room, h.left⟩⟩

variable [DecidableEq ι]

/-- The mesh after events one after another. -/
def nexts (mesh : Mesh ι) (events : List (Event ι)) : Mesh ι := events.foldl next mesh

/-- The mesh after events one after another, if each of them is allowed and has room. -/
def run (allowed : Event ι → Bool) : Mesh ι → List (Event ι) → Option (Mesh ι)
  | mesh, [] => some mesh
  | mesh, event :: rest =>
    if allowed event ∧ mesh.HasRoom event then run allowed (mesh.next event) rest else none

theorem Reachable.run {allowed : Event ι → Bool} {events : List (Event ι)} {mesh mesh' : Mesh ι}
    (h : Reachable (fun event => allowed event = true) mesh)
    (hrun : mesh.run allowed events = some mesh') :
    Reachable (fun event => allowed event = true) mesh' := by
  induction events generalizing mesh with
  | nil => exact Option.some.inj hrun ▸ h
  | cons event rest ih =>
      rw [Mesh.run] at hrun
      split at hrun
      · next hstep => exact ih (h.next event hstep.1 hstep.2) hrun
      · cases hrun

/-- A run that is carried out to its end leads to a mesh with what is found there. -/
theorem Reachable.exists_of_run {allowed : Event ι → Bool} {mesh : Mesh ι}
    (h : Reachable (fun event => allowed event = true) mesh) (events : List (Event ι))
    (found : Mesh ι → Prop) [DecidablePred found]
    (hrun : (mesh.run allowed events).any (fun mesh' => found mesh') = true) :
    ∃ mesh', Reachable (fun event => allowed event = true) mesh' ∧ found mesh' := by
  obtain ⟨mesh', hmesh', hfound⟩ := (Option.any_eq_true _ _).1 hrun
  exact ⟨mesh', h.run hmesh', of_decide_eq_true hfound⟩

section Nodes

variable {n : Nat} {config : Config}

/-- Openings of nodes with these settings and ids of their own. -/
def openings (config : Config) (i : Fin n) : Opening :=
  { config, fresh := ⟨List.replicate 16 (UInt8.ofNat (i + 1)), List.length_replicate⟩ }

private theorem toNat_ofNat_succ (hn : n < 256) (i : Fin n) :
    (UInt8.ofNat (i + 1)).toNat = i + 1 := by
  rw [UInt8.toNat_ofNat']
  exact Nat.mod_eq_of_lt (by omega)

theorem fresh_openings_ne_nil (hn : n < 256) (i : Fin n) : (openings config i).fresh ≠ .nil := by
  intro hnil
  have hbytes : List.replicate 16 (UInt8.ofNat (i + 1)) = List.replicate 16 0 :=
    congrArg ServerId.bytes hnil
  have hbyte := congrArg UInt8.toNat (List.replicate_right_injective (by decide) hbytes)
  rw [toNat_ofNat_succ hn] at hbyte
  cases hbyte

theorem fresh_openings_injective (hn : n < 256) {i j : Fin n}
    (h : (openings config i).fresh = (openings config j).fresh) : i = j := by
  have hbytes : List.replicate 16 (UInt8.ofNat (i + 1)) = List.replicate 16 (UInt8.ofNat (j + 1)) :=
    congrArg ServerId.bytes h
  have hbyte := congrArg UInt8.toNat (List.replicate_right_injective (by decide) hbytes)
  rw [toNat_ofNat_succ hn, toNat_ofNat_succ hn] at hbyte
  exact Fin.ext (Nat.succ.inj hbyte)

theorem exists_start_openings (hvalid : config.validate = .ok ()) (hn : n < 256) (i : Fin n) :
    ∃ store, (openings config i).start .empty = .ok store ∧
      store.node.serverId = (openings config i).fresh := by
  have hrequested : (openings config i).requested ≠ some .nil := Option.some_ne_none _ |>.symm
  obtain ⟨store, hstart, hholds⟩ :=
    Opening.exists_start_empty hvalid hrequested (fresh_openings_ne_nil hn i)
  exact ⟨store, hstart, hholds.serverId_eq⟩

private theorem isSome_start (hvalid : config.validate = .ok ()) (hn : n < 256) (i : Fin n) :
    ((openings config i).start .empty).toOption.isSome = true := by
  obtain ⟨store, hstart, _⟩ := exists_start_openings hvalid hn i
  rw [hstart]
  rfl

/-- Nodes with these settings that are opened on no trees. -/
def nodes (n : Nat) (config : Config) (hvalid : config.validate = .ok ()) (hn : n < 256) :
    Mesh (Fin n) :=
  fun i => ((openings config i).start .empty).toOption.get (isSome_start hvalid hn i)

theorem start_openings (hvalid : config.validate = .ok ()) (hn : n < 256) (i : Fin n) :
    (openings config i).start .empty = .ok (nodes n config hvalid hn i) := by
  obtain ⟨store, hstart, _⟩ := exists_start_openings hvalid hn i
  have hget : nodes n config hvalid hn i = store := by simp only [nodes, hstart]; rfl
  rw [hget, hstart]

theorem Reachable.nodes {allowed : Event (Fin n) → Prop} (hvalid : config.validate = .ok ())
    (hn : n < 256) : Reachable allowed (Mesh.nodes n config hvalid hn) := by
  refine .start (start_openings hvalid hn) (fresh_openings_ne_nil hn) fun i j hij => ?_
  have hids : ∀ i, (Mesh.nodes n config hvalid hn).ids i = (openings config i).fresh := by
    intro i
    obtain ⟨store, hstart, hid⟩ := exists_start_openings hvalid hn i
    rw [Mesh.start_openings hvalid hn, Except.ok.injEq] at hstart
    rw [Mesh.ids, hstart, hid]
  rw [hids, hids] at hij
  exact fresh_openings_injective hn hij

end Nodes

/-- Three nodes without counters, with the settings as they come. -/
def three : Mesh (Fin 3) := nodes 3 {} Config.validate_default (by decide)

theorem Reachable.three (allowed : Event (Fin 3) → Prop) : Reachable allowed Mesh.three :=
  .nodes rfl (by decide)

/-- Nodes that pull one entry at a time, and no more than one while their clocks run. -/
def slowConfig : Config := { replicationBatchSize := 1, replicationTimeout := 1 }

/-- The clock of a node stands still. -/
def hold (node : ι) : Event ι := .outside node { held := true } {}

/-- A node adds to the one counter. -/
def add (node : ι) (delta : Int64) : Event ι :=
  .write node [.store "group" "name" delta] false

/-- A node deletes the one counter. -/
def remove (node : ι) : Event ι := .write node [.delete "group" "name"] false

end Mesh

end CounterMesh
