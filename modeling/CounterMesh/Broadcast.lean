/-!
# Broadcasts

A broadcast sends items to everybody who has subscribed, and keeps the last of
them up to its capacity. A subscriber that falls behind is told once how many
items it missed, and goes on with the oldest item that is kept.
-/

namespace CounterMesh

/-- A broadcast: the count of items sent, and those that are kept, oldest first. -/
structure Broadcast (α : Type u) where
  capacity : Nat
  sent : Nat := 0
  kept : List α := []
  deriving Repr

/-- What a subscriber receives. -/
inductive Received (α : Type u) where
  | item (item : α)
  | missed (count : Nat)
  deriving Repr

namespace Broadcast

variable (broadcast : Broadcast α)

/-- Sends an item. -/
def send (item : α) : Broadcast α :=
  let kept := broadcast.kept ++ [item]
  { broadcast with
    sent := broadcast.sent + 1
    kept := kept.drop (kept.length - broadcast.capacity) }

/-- Sends several items in their order. -/
def sendAll (items : List α) : Broadcast α := items.foldl send broadcast

/-- Where a new subscriber starts. -/
def subscribe : Nat := broadcast.sent

/-- The place of the oldest item that is kept. -/
def oldest : Nat := broadcast.sent - broadcast.kept.length

/-- What a subscriber at `place` has not received yet. -/
def pending (place : Nat) : List (Received α) :=
  if place < broadcast.oldest then
    .missed (broadcast.oldest - place) :: broadcast.kept.map .item
  else (broadcast.kept.drop (place - broadcast.oldest)).map .item

/-- Where a subscriber at `place` stands after receiving `received`. -/
def advance (place : Nat) : List (Received α) → Nat
  | [] => place
  | .missed count :: rest => advance (place + count) rest
  | .item _ :: rest => advance (place + 1) rest

/-- Receives at most `limit` times what is pending, or all of it; also gives the new place. -/
def receive (place : Nat) (limit : Option Nat) : List (Received α) × Nat :=
  let received :=
    match limit with
    | none => broadcast.pending place
    | some limit => (broadcast.pending place).take limit
  (received, advance place received)

end Broadcast

end CounterMesh
