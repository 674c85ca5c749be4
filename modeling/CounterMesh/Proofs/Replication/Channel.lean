import CounterMesh.Proofs.Replication.Delivery
import CounterMesh.Proofs.Replication.Network

/-!
# A channel between two nodes

A sender stores, and collects messages from its feed: at any moment, from any
etag on and of any length. The messages reach a receiver in any order and any
number of times. The receiver keeps no record of the etags under which it has
taken its slots, so it holds what was delivered last: its copies never fall
exactly when no message is delivered behind one with greater values.
-/

namespace CounterMesh

/-- A sender, a receiver and what has passed between them. -/
structure Channel where
  sender : Store
  receiver : Store
  /-- The messages that were collected. -/
  sent : List Message := []
  /-- The messages that were delivered, the last one first. -/
  delivered : List Message := []
  /-- The receiver as each delivery found it, the last one first. -/
  past : List Store := []

namespace Channel

/-- What happens to a channel. -/
inductive Event where
  | write (calls : List Call) (notify : Bool)
  | collect (since : Etag) (max : Nat)
  | deliver (message : Message) (notify : Bool)
  /-- The clock and the signal of the sender are moved from outside. -/
  | outsideSender (clock : Clock) (signal : Signal)
  /-- The clock and the signal of the receiver are moved from outside. -/
  | outsideReceiver (clock : Clock) (signal : Signal)

/-- A message of the sender with a part of its feed. -/
def collect (channel : Channel) (since : Etag) (max : Nat) : Except Error Message := do
  return ⟨channel.sender.node.serverId,
    ← Index.changes channel.sender.engine.snapshot since max⟩

/-- The receiver applies a message in a writer of its own. -/
def receive (receiver : Store) (message : Message) (notify : Bool) : Store :=
  receiver.after (StoreM.transact notify (Write.applyMessage message))

/-- The channel after an event. -/
def next (channel : Channel) : Event → Channel
  | .write calls notify => { channel with sender := channel.sender.write calls notify }
  | .collect since max =>
    match channel.collect since max with
    | .ok message => { channel with sent := message :: channel.sent }
    | .error _ => channel
  | .deliver message notify =>
    { channel with
      receiver := receive channel.receiver message notify
      delivered := message :: channel.delivered
      past := channel.receiver :: channel.past }
  | .outsideSender clock signal =>
    { channel with
      sender := { channel.sender with node := { channel.sender.node with clock, signal } } }
  | .outsideReceiver clock signal =>
    { channel with
      receiver := { channel.receiver with node := { channel.receiver.node with clock, signal } } }

/-- The sender does nothing but store, and no sum is too great for its slot; what is delivered was
collected before. The sequences of the node that writes have room. -/
def Possible (channel : Channel) : Event → Prop
  | .write calls _ => calls.all Call.isStore = true ∧ channel.sender.HasRoom calls.length ∧
    channel.sender.Fits calls
  | .deliver message _ =>
    message ∈ channel.sent ∧ channel.receiver.HasRoom message.entries.length
  | _ => True

/-- The states of a channel between two nodes that were opened on no trees. -/
inductive Reachable : Channel → Prop where
  | start {opening opening' : Opening} {sender receiver : Store}
      (h : opening.start .empty = .ok sender) (h' : opening'.start .empty = .ok receiver)
      (hfresh : opening.fresh ≠ .nil) (hfresh' : opening'.fresh ≠ .nil)
      (hne : sender.node.serverId ≠ receiver.node.serverId) : Reachable { sender, receiver }
  | next {channel : Channel} (h : Reachable channel) (event : Event)
      (hpossible : channel.Possible event) : Reachable (channel.next event)

/-- No copy of a slot of this node has fallen. -/
def Rises (own : ServerId) (later earlier : Store) : Prop :=
  ∀ k value, k.serverId = own → earlier.valueOf? k = .ok (some value) →
    ∃ value', later.valueOf? k = .ok (some value') ∧ value ≤ value'

/-- No delivery lets the copy of a slot of the sender fall. -/
def Steady (channel : Channel) : Prop :=
  (channel.receiver :: channel.past).IsChain (Rises channel.sender.node.serverId)

/-- The receiver has heard of everything: its cursor has reached the last etag of the sender, and
every entry of the feed was delivered. -/
structure Complete (channel : Channel) : Prop where
  cursor : ∃ etag, Index.lastEtagFor channel.receiver.engine.snapshot
    channel.sender.node.serverId = .ok etag ∧ channel.sender.node.lastEtag ≤ etag
  delivered : ∀ e ∈ channel.sender.feed, Message.Told channel.delivered e

/-- The receiver holds in every slot of the sender what the sender holds. -/
def UpToDate (channel : Channel) : Prop :=
  ∀ k, k.serverId = channel.sender.node.serverId →
    channel.receiver.valueOf? k = channel.sender.valueOf? k

/-- What was delivered last about a slot is what the sender holds. -/
def EndsNewest (channel : Channel) : Prop :=
  ∀ e ∈ channel.sender.feed, ∀ last ∈ Message.lastAbout channel.delivered e.slotName,
    last.value = e.value

/-- Sender and receiver carry catalogs without deleted counters. What was sent is what the sender
held once, and the receiver holds what was delivered last. -/
structure Carries (channel : Channel) (own peer : ServerId) (c d : Catalog) : Prop where
  distinct : own ≠ peer
  sender : channel.sender.Holds own c
  receiver : channel.receiver.Holds peer d
  undeleted : c.Undeleted
  undeleted' : d.Undeleted
  named : c.AllNamed
  owner : ∀ k cell, c.slot k = some cell → k.serverId = own
  coherent : Message.Coherent channel.sent
  before : ∀ e, Message.Told channel.sent e →
    ∃ cell, c.slot e.slotName = some cell ∧ e.cell.Before cell
  delivered : channel.delivered ⊆ channel.sent
  copies : ∀ k, (d.slot k).map Cell.value =
    (Message.lastAbout channel.delivered k).map FeedEntry.value

namespace Carries

variable {channel : Channel} {own peer : ServerId} {c d : Catalog}

theorem start {opening opening' : Opening} {sender receiver : Store}
    (h : opening.start .empty = .ok sender) (h' : opening'.start .empty = .ok receiver)
    (hfresh : opening.fresh ≠ .nil) (hfresh' : opening'.fresh ≠ .nil)
    (hne : sender.node.serverId ≠ receiver.node.serverId) :
    Carries { sender, receiver } sender.node.serverId receiver.node.serverId
      (.initial sender.node.serverId) (.initial receiver.node.serverId) where
  distinct := hne
  sender := Opening.start_empty h hfresh
  receiver := Opening.start_empty h' hfresh'
  undeleted := by
    intro id hid
    cases hid
  undeleted' := by
    intro id hid
    cases hid
  named := by
    intro k cell hk
    cases hk
  owner := by
    intro k cell hk
    cases hk
  coherent := ⟨nofun, fun _ _ ⟨_, hm, _⟩ => nomatch hm⟩
  before := fun _ ⟨_, hm, _⟩ => nomatch hm
  delivered := List.nil_subset _
  copies := fun _ => rfl

/-- A writer of the sender lets its slots grow. -/
theorem write (h : channel.Carries own peer c d) {calls : List Call} {notify : Bool}
    (hstores : calls.all Call.isStore = true) (hroom : channel.sender.HasRoom calls.length)
    (hfits : channel.sender.Fits calls) :
    ∃ c', Carries (channel.next (.write calls notify)) own peer c' d := by
  have hroom' := h.sender.hasRoom_iff.1 hroom
  have hs := h.sender.keeps.sound
  have hown : own ≠ .nil := h.sender.serverId_eq ▸ h.sender.keeps.serverId
  have hsender := h.sender.write_stores (List.all_eq_true.1 hstores) hroom' notify
  have hrenews := (Catalog.puts_adds c hown calls).renews hs hroom'
  have hgrows := Catalog.grows_adds hs h.undeleted hroom' hown (h.sender.fits hfits)
  refine ⟨_, { h with
    sender := hsender
    undeleted := ?_, named := ?_, owner := ?_, before := ?_ }⟩
  · refine hrenews.undeleted hsender.keeps.sound h.undeleted ?_
    rintro k _ ⟨_, rfl⟩
    exact hown
  · exact hrenews.allNamed h.named fun k _ hk => hk.1
  · intro k cell hk
    by_cases hold : c.slot k = some cell
    · exact h.owner k cell hold
    · exact (hrenews.changed_of_fresh hk hold).2.2
  · intro e he
    obtain ⟨cell, hk, hbefore⟩ := h.before e he
    obtain ⟨cell', hk', hbefore'⟩ := hgrows _ cell hk
    exact ⟨cell', hk', hbefore.trans hbefore'⟩

/-- What is collected is what the sender holds. -/
theorem collect (h : channel.Carries own peer c d) (since : Etag) (max : Nat) :
    Carries (channel.next (.collect since max)) own peer c d := by
  have hfeed := h.sender.feed
  have hshows : channel.sender.engine.snapshot.trees.Shows c.ledger := h.sender.keeps.shows
  have hchanges := hfeed.changes hshows h.sender.keeps.sound since max
  generalize hentries : (feedAfter channel.sender.feed since).take max = entries at hchanges
  have hcollect : channel.collect since max = .ok ⟨own, entries⟩ := by
    rw [Channel.collect, hchanges, h.sender.serverId_eq]
    rfl
  have hsub : entries.Sublist channel.sender.feed := by
    rw [← hentries]
    exact (List.take_sublist _ _).trans List.filter_sublist
  have hnew : ∀ e ∈ entries, c.slot e.slotName = some e.cell := fun e he =>
    (hfeed.mem_iff e).1 (hsub.subset he)
  have hbefore : ∀ e, Message.Told (⟨own, entries⟩ :: channel.sent) e →
      ∃ cell, c.slot e.slotName = some cell ∧ e.cell.Before cell := by
    rintro e ⟨m, hm, he⟩
    rcases List.mem_cons.1 hm with rfl | hm
    · exact ⟨e.cell, hnew e he, .refl _⟩
    · exact h.before e ⟨m, hm, he⟩
  rw [Channel.next, hcollect]
  refine { h with coherent := ⟨?_, ?_⟩, before := hbefore, delivered := ?_ }
  · intro m hm
    rcases List.mem_cons.1 hm with rfl | hm
    · exact hfeed.unique_slots.sublist (hsub.map _)
    · exact h.coherent.unique m hm
  · -- A new entry is what the sender holds now, and so behind every other one of its slot.
    have hbehind : ∀ e e', Message.Told (⟨own, entries⟩ :: channel.sent) e → e' ∈ entries →
        e.slotName = e'.slotName → e.cell.Before e'.cell := by
      intro e e' he he' hslot
      obtain ⟨cell, hk, hcell⟩ := hbefore e he
      rw [hslot, hnew e' he', Option.some.injEq] at hk
      exact hk ▸ hcell
    rintro e e' he he' hslot
    obtain ⟨m, hm, hmem⟩ := he
    obtain ⟨m', hm', hmem'⟩ := he'
    rcases List.mem_cons.1 hm' with rfl | hold'
    · exact .inl (hbehind e e' ⟨m, hm, hmem⟩ hmem' hslot)
    · rcases List.mem_cons.1 hm with rfl | hold
      · exact .inr (hbehind e' e ⟨m', hm', hmem'⟩ hmem hslot.symm)
      · exact h.coherent.grows e e' ⟨m, hold, hmem⟩ ⟨m', hold', hmem'⟩ hslot
  · exact fun m hm => .tail _ (h.delivered hm)

/-- What is sent tells about slots of the sender in counters with names. -/
theorem slot_of_told (h : channel.Carries own peer c d) {e : FeedEntry}
    (he : Message.Told channel.sent e) : e.serverId = own ∧ Named e.group e.name := by
  obtain ⟨cell, hk, _⟩ := h.before e he
  exact ⟨h.owner _ _ hk, h.named _ _ hk⟩

/-- A delivery leaves the copies that it tells about at the values of the message. -/
theorem deliver (h : channel.Carries own peer c d) {message : Message} {notify : Bool}
    (hsent : message ∈ channel.sent) (hroom : channel.receiver.HasRoom message.entries.length) :
    ∃ d', Carries (channel.next (.deliver message notify)) own peer c d' := by
  have hroom' := h.receiver.hasRoom_iff.1 hroom
  have hown : own ≠ .nil := h.sender.serverId_eq ▸ h.sender.keeps.serverId
  have htold : ∀ e ∈ message.entries, e.serverId = own ∧ Named e.group e.name :=
    fun e he => h.slot_of_told ⟨message, hsent, he⟩
  obtain ⟨_, _, hreceiver⟩ := Store.after_of_returns
    (StoreM.returns_applyMessage h.receiver notify message (fun e he => (htold e he).2) hroom')
  have hforeign : ∀ e ∈ message.entries, e.serverId ≠ .nil ∧ e.serverId ≠ peer := by
    intro e he
    rw [(htold e he).1]
    exact ⟨hown, h.distinct⟩
  obtain ⟨hundeleted, hvalues⟩ :=
    h.undeleted'.value_apply h.receiver.keeps.sound hroom' hforeign
  refine ⟨d.apply peer message, { h with
    receiver := hreceiver, undeleted' := hundeleted
    delivered := List.cons_subset.2 ⟨hsent, h.delivered⟩, copies := fun k => ?_ }⟩
  have hlast : Message.lastAbout (channel.next (.deliver message notify)).delivered k =
      (message.about k).or (Message.lastAbout channel.delivered k) := Message.lastAbout_cons
  rw [hvalues, h.copies, hlast]
  cases message.about k <;> rfl

theorem next (h : channel.Carries own peer c d) {event : Event}
    (hpossible : channel.Possible event) :
    ∃ c' d', Carries (channel.next event) own peer c' d' := by
  cases event with
  | write calls notify =>
      obtain ⟨hstores, hroom, hfits⟩ := hpossible
      obtain ⟨c', h'⟩ := h.write hstores hroom hfits
      exact ⟨c', d, h'⟩
  | collect since max => exact ⟨c, d, h.collect since max⟩
  | deliver message notify =>
      obtain ⟨d', h'⟩ := h.deliver hpossible.1 hpossible.2
      exact ⟨c, d', h'⟩
  | outsideSender clock signal => exact ⟨c, d, { h with sender := h.sender.outside clock signal }⟩
  | outsideReceiver clock signal =>
      exact ⟨c, d, { h with receiver := h.receiver.outside clock signal }⟩

theorem receiver_valueOf? (h : channel.Carries own peer c d) (k : SlotName) :
    channel.receiver.valueOf? k =
      .ok ((Message.lastAbout channel.delivered k).map FeedEntry.value) := by
  rw [h.receiver.valueOf?_eq, h.copies]

/-- A delivery lets no copy fall exactly when it tells no less than what was delivered last. -/
theorem rises_iff (h : channel.Carries own peer c d) {message : Message} {notify : Bool}
    (hsent : message ∈ channel.sent) (hroom : channel.receiver.HasRoom message.entries.length) :
    Rises own (receive channel.receiver message notify) channel.receiver ↔
      ∀ e ∈ message.entries, ∀ last,
        Message.lastAbout channel.delivered e.slotName = some last → last.value ≤ e.value := by
  obtain ⟨_, h'⟩ := h.deliver hsent hroom
  have hlater : ∀ k, (receive channel.receiver message notify).valueOf? k =
      .ok (((message.about k).or (Message.lastAbout channel.delivered k)).map FeedEntry.value) := by
    intro k
    have hvalue := h'.receiver_valueOf? k
    rwa [Channel.next, Message.lastAbout_cons] at hvalue
  constructor
  · intro hrises e he last hlast
    have hunique := h.coherent.unique message hsent
    have hnode : e.slotName.serverId = own := (h.slot_of_told ⟨message, hsent, he⟩).1
    obtain ⟨value, hvalue, hle⟩ := hrises e.slotName last.value hnode (by
      rw [h.receiver_valueOf?, hlast]
      rfl)
    rw [hlater, Message.about_of_mem hunique he, Except.ok.injEq] at hvalue
    exact Option.some.inj hvalue ▸ hle
  · intro hlast k value _ hvalue
    rw [h.receiver_valueOf?, Except.ok.injEq, Option.map_eq_some_iff] at hvalue
    obtain ⟨last, habout, rfl⟩ := hvalue
    rw [hlater]
    cases hmessage : message.about k with
    | none => exact ⟨last.value, by rw [habout]; rfl, Int64.le_refl _⟩
    | some e =>
        obtain ⟨he, rfl⟩ := Message.mem_of_about hmessage
        exact ⟨e.value, rfl, hlast e he last habout⟩

/-- A step keeps the copies steady exactly when it keeps the messages in order. -/
theorem steady_next_iff (h : channel.Carries own peer c d) {event : Event}
    (hpossible : channel.Possible event)
    (hsteady : channel.Steady ↔ Message.InOrder channel.delivered) :
    (channel.next event).Steady ↔ Message.InOrder (channel.next event).delivered := by
  obtain ⟨c', d', h'⟩ := h.next hpossible
  rw [Steady, h.sender.serverId_eq] at hsteady
  rw [Steady, h'.sender.serverId_eq]
  cases event with
  | write calls notify => exact hsteady
  | collect since max =>
      have hsame : (channel.next (.collect since max)).receiver = channel.receiver ∧
          (channel.next (.collect since max)).past = channel.past ∧
          (channel.next (.collect since max)).delivered = channel.delivered := by
        rw [Channel.next]
        cases channel.collect since max <;> exact ⟨rfl, rfl, rfl⟩
      rw [hsame.1, hsame.2.1, hsame.2.2]
      exact hsteady
  | deliver message notify =>
      obtain ⟨hsent, hroom⟩ := hpossible
      have hcoherent : Message.Coherent (message :: channel.delivered) :=
        h.coherent.subset (List.cons_subset.2 ⟨hsent, h.delivered⟩)
      refine Iff.trans ?_ hcoherent.inOrder_cons_iff.symm
      rw [← hsteady, ← h.rises_iff hsent hroom, and_comm]
      exact List.isChain_cons_cons
  | outsideSender clock signal => exact hsteady
  | outsideReceiver clock signal =>
      refine Iff.trans ?_ hsteady
      rw [Channel.next]
      cases channel.past with
      | nil => exact iff_of_true (.singleton _) (.singleton _)
      | cons earlier rest =>
          rw [List.isChain_cons_cons, List.isChain_cons_cons]
          exact Iff.rfl

/-- After everything was delivered the copies are those of the sender exactly when what was
delivered last about each slot is. -/
theorem upToDate_iff (h : channel.Carries own peer c d) (hcomplete : channel.Complete) :
    channel.UpToDate ↔ channel.EndsNewest := by
  have hfeed := h.sender.feed
  rw [UpToDate, h.sender.serverId_eq]
  constructor
  · intro hsame e he last hlast
    have hk := (hfeed.mem_iff e).1 he
    have hvalue := hsame e.slotName (h.owner _ _ hk)
    rw [h.receiver_valueOf?, h.sender.valueOf?_eq, hk, Except.ok.injEq, Option.mem_def.1 hlast]
      at hvalue
    exact Option.some.inj hvalue
  · intro hends k _
    rw [h.receiver_valueOf?, h.sender.valueOf?_eq]
    cases hk : c.slot k with
    | none =>
        cases hlast : Message.lastAbout channel.delivered k with
        | none => rfl
        | some last =>
            obtain ⟨⟨m, hm, hmem⟩, rfl⟩ := Message.told_of_lastAbout hlast
            obtain ⟨cell, hcell, _⟩ := h.before last ⟨m, h.delivered hm, hmem⟩
            rw [hk] at hcell
            cases hcell
    | some cell =>
        have he : .about k cell ∈ channel.sender.feed := hfeed.mem_about_iff.2 hk
        obtain ⟨last, hlast⟩ := Message.exists_lastAbout (hcomplete.delivered _ he)
        have hvalue := hends _ he last hlast
        rw [FeedEntry.slotName_about] at hlast
        rw [hlast]
        exact congrArg (fun value => Except.ok (some value)) hvalue

/-- Messages in order end with the newest values. -/
theorem endsNewest (h : channel.Carries own peer c d) (hcomplete : channel.Complete)
    (horder : Message.InOrder channel.delivered) : channel.EndsNewest := by
  intro e he last hlast
  obtain ⟨greatest, hgreatest, hle⟩ := horder.le_lastAbout (h.coherent.subset h.delivered)
    (hcomplete.delivered e he)
  obtain rfl := Option.some.inj (hlast.symm.trans hgreatest)
  obtain ⟨⟨m, hm, hmem⟩, hslot⟩ := Message.told_of_lastAbout hlast
  obtain ⟨cell, hk, hbefore⟩ := h.before last ⟨m, h.delivered hm, hmem⟩
  rw [hslot, (h.sender.feed.mem_iff e).1 he, Option.some.injEq] at hk
  rw [← hk] at hbefore
  exact Int64.le_antisymm hbefore.value_le hle

end Carries

/-- A channel carries catalogs, and its copies are steady exactly as its messages are in order. -/
theorem Reachable.carries {channel : Channel} (h : Reachable channel) :
    (∃ own peer c d, channel.Carries own peer c d) ∧
      (channel.Steady ↔ Message.InOrder channel.delivered) := by
  induction h with
  | start h h' hfresh hfresh' hne =>
      refine ⟨⟨_, _, _, _, .start h h' hfresh hfresh' hne⟩, iff_of_true ?_ .nil⟩
      exact .singleton _
  | next h event hpossible ih =>
      obtain ⟨⟨own, peer, c, d, hcarries⟩, hsteady⟩ := ih
      obtain ⟨c', d', hcarries'⟩ := hcarries.next hpossible
      exact ⟨⟨own, peer, c', d', hcarries'⟩, hcarries.steady_next_iff hpossible hsteady⟩

variable {channel : Channel}

/-- Whatever messages are collected, and however often and in which order they are delivered: the
copies of the receiver never fall exactly when no message is delivered behind one that has a later
entry of a slot with another value. Once everything was delivered the copies are those of the
sender exactly when what was delivered last about each slot is. -/
theorem steady_iff_inOrder (h : Reachable channel) :
    (channel.Steady ↔ Message.InOrder channel.delivered) ∧
      (channel.Complete → (channel.UpToDate ↔ channel.EndsNewest)) := by
  obtain ⟨⟨own, peer, c, d, hcarries⟩, hsteady⟩ := h.carries
  exact ⟨hsteady, hcarries.upToDate_iff⟩

/-- Messages in order bring the receiver up to date. -/
theorem upToDate_of_inOrder (h : Reachable channel) (hcomplete : channel.Complete)
    (horder : Message.InOrder channel.delivered) : channel.UpToDate := by
  obtain ⟨⟨own, peer, c, d, hcarries⟩, _⟩ := h.carries
  exact (hcarries.upToDate_iff hcomplete).2 (hcarries.endsNewest hcomplete horder)

instance (channel : Channel) : DecidablePred channel.Possible
  | .write .. => inferInstanceAs (Decidable (_ ∧ _))
  | .deliver .. => inferInstanceAs (Decidable (_ ∧ _))
  | .collect .. => inferInstanceAs (Decidable True)
  | .outsideSender .. => inferInstanceAs (Decidable True)
  | .outsideReceiver .. => inferInstanceAs (Decidable True)

instance (channel : Channel) : Decidable channel.EndsNewest :=
  inferInstanceAs (Decidable (∀ e ∈ channel.sender.feed,
    ∀ last ∈ Message.lastAbout channel.delivered e.slotName, last.value = e.value))

/-- The channel after events one after another, if each of them is possible. -/
def run : Channel → List Event → Option Channel
  | channel, [] => some channel
  | channel, event :: rest =>
    if channel.Possible event then run (channel.next event) rest else none

theorem Reachable.run {events : List Event} {channel channel' : Channel} (h : Reachable channel)
    (hrun : channel.run events = some channel') : Reachable channel' := by
  induction events generalizing channel with
  | nil => exact Option.some.inj hrun ▸ h
  | cons event rest ih =>
      rw [Channel.run] at hrun
      split at hrun
      · next hpossible => exact ih (h.next event hpossible) hrun
      · cases hrun

/-- A run that is carried out to its end leads to a channel with what is found there. -/
theorem Reachable.exists_of_run (h : Reachable channel) (events : List Event)
    (found : Channel → Prop) [DecidablePred found]
    (hrun : (channel.run events).any (fun channel' => found channel') = true) :
    ∃ channel', Reachable channel' ∧ found channel' := by
  obtain ⟨channel', hchannel', hfound⟩ := (Option.any_eq_true _ _).1 hrun
  exact ⟨channel', h.run hchannel', of_decide_eq_true hfound⟩

/-- A channel between two nodes without counters. -/
def fresh : Channel :=
  let nodes := Mesh.nodes 2 {} Config.validate_default (by decide)
  { sender := nodes 0, receiver := nodes 1 }

theorem reachable_fresh : Reachable fresh :=
  .start (Mesh.start_openings rfl (by decide) 0) (Mesh.start_openings rfl (by decide) 1)
    (Mesh.fresh_openings_ne_nil (by decide) 0) (Mesh.fresh_openings_ne_nil (by decide) 1)
    (by decide +kernel)

/-- The one slot that the sender writes. -/
def slot : SlotName := ⟨"group", "name", fresh.sender.node.serverId, .positive⟩

/-- The message about the slot with this in it. -/
def tell (value : Int64) (etag : Etag) : Message :=
  ⟨fresh.sender.node.serverId, [.about slot ⟨value, etag⟩]⟩

/-- The sender adds to its slot, and collects what is new. -/
def addAndCollect (delta : Int64) (since : Etag) : List Event :=
  [.write [.store "group" "name" delta] false, .collect since 10]

/-- Two messages are delivered twice each, in their order. -/
theorem steady_of_redelivery : ∃ channel : Channel, Reachable channel ∧
    channel.delivered = [tell 5 2, tell 5 2, tell 3 1, tell 3 1] ∧ channel.Complete ∧
      channel.Steady ∧ channel.UpToDate := by
  obtain ⟨channel, hreachable, hdelivered, horder, hcursor, hlast, hall, hends⟩ :=
    reachable_fresh.exists_of_run
      (addAndCollect 3 0 ++ addAndCollect 2 1 ++ [.deliver (tell 3 1) true,
        .deliver (tell 3 1) true, .deliver (tell 5 2) true, .deliver (tell 5 2) true])
      (fun channel => channel.delivered = [tell 5 2, tell 5 2, tell 3 1, tell 3 1] ∧
        Message.InOrder channel.delivered ∧
        Index.lastEtagFor channel.receiver.engine.snapshot channel.sender.node.serverId = .ok 2 ∧
        channel.sender.node.lastEtag ≤ 2 ∧
        (∀ e ∈ channel.sender.feed, Message.Told channel.delivered e) ∧ channel.EndsNewest)
      (by decide +kernel)
  have hcomplete : channel.Complete := ⟨⟨2, hcursor, hlast⟩, hall⟩
  have hiff := steady_iff_inOrder hreachable
  exact ⟨channel, hreachable, hdelivered, hcomplete, hiff.1.2 horder, (hiff.2 hcomplete).2 hends⟩

/-- The second message is delivered first. The copy falls back to the first value and stays
there, though the cursor has reached the last etag. -/
theorem not_steady_of_late_message : ∃ channel : Channel, Reachable channel ∧
    channel.delivered = [tell 3 1, tell 5 2] ∧ channel.Complete ∧
      channel.sender.valueOf? slot = .ok (some 5) ∧
      channel.receiver.valueOf? slot = .ok (some 3) ∧ ¬ channel.Steady ∧ ¬ channel.UpToDate := by
  obtain ⟨channel, hreachable, hdelivered, hid, hcursor, hlast, hall, hsender, hreceiver,
      earlier, hpast, hearlier⟩ :=
    reachable_fresh.exists_of_run
      (addAndCollect 3 0 ++ addAndCollect 2 1 ++ [.deliver (tell 5 2) true,
        .deliver (tell 3 1) true])
      (fun channel => channel.delivered = [tell 3 1, tell 5 2] ∧
        slot.serverId = channel.sender.node.serverId ∧
        Index.lastEtagFor channel.receiver.engine.snapshot channel.sender.node.serverId = .ok 2 ∧
        channel.sender.node.lastEtag ≤ 2 ∧
        (∀ e ∈ channel.sender.feed, Message.Told channel.delivered e) ∧
        channel.sender.valueOf? slot = .ok (some 5) ∧
        channel.receiver.valueOf? slot = .ok (some 3) ∧
        ∃ earlier ∈ channel.past.head?, earlier.valueOf? slot = .ok (some 5))
      (by decide +kernel)
  refine ⟨channel, hreachable, hdelivered, ⟨⟨2, hcursor, hlast⟩, hall⟩, hsender, hreceiver, ?_, ?_⟩
  · intro hsteady
    obtain ⟨rest, hrest⟩ := List.head?_eq_some_iff.1 hpast
    rw [Steady, hrest, List.isChain_cons_cons] at hsteady
    obtain ⟨value, hvalue, hle⟩ := hsteady.1 slot 5 hid hearlier
    rw [hreceiver, Except.ok.injEq, Option.some.injEq] at hvalue
    exact absurd (hvalue ▸ hle) (by decide)
  · intro hsame
    have hvalue := hsame slot hid
    rw [hreceiver, hsender, Except.ok.injEq, Option.some.injEq] at hvalue
    exact absurd hvalue (by decide)

end Channel

end CounterMesh
