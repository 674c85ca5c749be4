import CounterMesh.Replication.Message
import CounterMesh.Store.Write

/-!
# Applying replication messages

A node merges the entries of a message in their order and moves its cursor for
the sender on. It skips its own slots, of which it knows best, and entries that
would change nothing, so that it does not hand them on under fresh etags.
-/

namespace CounterMesh

/-- The outcome of applying a message. -/
structure Applied where
  /-- How many entries were merged. -/
  applied : Nat := 0
  /-- How many entries were skipped. -/
  skipped : Nat := 0
  /-- The greatest etag of the message. -/
  lastEtag : Option Etag := none
  deriving DecidableEq, Repr

namespace Write

/-- Whether merging an entry would change nothing. A tombstone is in place only while its counter
is deleted, and a slot counts only while its counter is live. -/
def alreadyApplied (entry : FeedEntry) : Write Bool := do
  if entry.serverId = (← serverId) then return true
  let current ← query fun t =>
    Index.valueOf? t entry.group entry.name (.ofServer entry.serverId) entry.sign
  if current = some entry.value then
    let live ← query fun t => Index.liveId? t entry.group entry.name
    return live.isSome != entry.serverId.isNil
  else return false

/-- Merges entries one after another, and counts those merged and those skipped. -/
def applyEntries : List FeedEntry → Write Applied
  | [] => return {}
  | entry :: rest => do
    if ← alreadyApplied entry then
      let outcome ← applyEntries rest
      return { outcome with skipped := outcome.skipped + 1 }
    else
      let _ ← storeReplicated entry.group entry.name entry.serverId entry.sign entry.value
      let outcome ← applyEntries rest
      return { outcome with applied := outcome.applied + 1 }

/-- Applies a message. The cursor for its sender never moves backwards. -/
def applyMessage (message : Message) : Write Applied := do
  let outcome ← applyEntries message.entries
  match message.lastEtag with
  | none => return outcome
  | some etag =>
    let current ← query fun t => Index.lastEtagFor t message.serverId
    recordPeerEtag message.serverId (max etag current)
    return { outcome with lastEtag := some etag }

end Write

end CounterMesh
