import CounterMesh.Store

/-!
# Purging a store

A purge commits one batch after another until no tombstone is older than the
retention. The sweeper purges in the background, once after every interval; a
purge that fails does not end it.
-/

namespace CounterMesh.StoreM

/-- Commits batches until there is nothing left to remove, and counts them. -/
def purgeBatches : (fuel : Nat) → StoreM Nat
  | 0 => return 0
  | fuel + 1 => do
    if ← transact false Write.purgeBatch id then return (← purgeBatches fuel) + 1 else return 0

/-- Removes all tombstones that are older than the retention, and counts the batches. Every batch
removes a tombstone from the list by date, which bounds their number. -/
def purge : StoreM Nat := do
  let dated := Index.memberCount (← get).engine.snapshot Layout.tombstonesByDate
  purgeBatches (dated.toOption.getD 0 + 1)

/-- Starts the sweeper on a thread of its own, unless it is running. -/
def startSweeper : StoreM Unit :=
  modifyNode fun node =>
    match node.sweeper with
    | .stopped => { node with sweeper := .thread }
    | _ => node

/-- One purge of the sweeper; its failure is passed over. -/
def sweepOnce : StoreM Unit := do
  match purge.run (← get) with
  | .ok _ store => set store
  | .error _ store => set store

/-- Purges once for each of `ticks` intervals. -/
def sweepTimes : (ticks : Nat) → StoreM Unit
  | 0 => return ()
  | ticks + 1 => do
    sweepOnce
    sweepTimes ticks

/-- Starts the sweeper as a task, unless it is running, and lets `ticks` intervals pass for it. A
sweeper on a thread of its own does not notice them. -/
def sweep (ticks : Nat) : StoreM Unit := do
  match (← get).node.sweeper with
  | .thread => return ()
  | .task => sweepTimes ticks
  | .stopped =>
    modifyNode fun node => { node with sweeper := .task }
    sweepTimes ticks

end CounterMesh.StoreM
