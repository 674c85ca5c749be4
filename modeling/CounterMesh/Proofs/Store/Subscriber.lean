import CounterMesh.Proofs.Store.Announcements
import CounterMesh.Proofs.Store.Saved

/-!
# Subscribers of a store

A subscriber of the changes of a store that was there from the start, and that
never falls behind what the broadcast keeps, receives the changes of all
committed calls in the order of the calls. Together they tell which counters are
live after each commit. A writer that is dropped publishes nothing; neither does
one that is committed without notice, and only one that has nothing to tell is.
-/

namespace CounterMesh

namespace Broadcast

variable {α : Type} {broadcast : Broadcast α} {history items : List α} {place place' : Nat}

/-- The broadcast has sent this history, and keeps its end as far as there is room for it. -/
structure Carries (broadcast : Broadcast α) (history : List α) : Prop where
  sent : broadcast.sent = history.length
  kept : broadcast.kept = history.drop (history.length - broadcast.capacity)

namespace Carries

theorem send (h : broadcast.Carries history) (item : α) :
    (broadcast.send item).Carries (history ++ [item]) where
  sent := by
    rw [List.length_append, ← h.sent]
    rfl
  kept := by
    have hkept : broadcast.kept ++ [item] =
        (history ++ [item]).drop (history.length - broadcast.capacity) := by
      rw [h.kept, List.drop_append_of_le_length (Nat.sub_le _ _)]
    show (broadcast.kept ++ [item]).drop
      ((broadcast.kept ++ [item]).length - broadcast.capacity) = _
    rw [hkept, List.drop_drop, List.length_drop, List.length_append, List.length_singleton]
    congr 1
    show _ = history.length + 1 - broadcast.capacity
    omega

theorem sendAll (h : broadcast.Carries history) (items : List α) :
    (broadcast.sendAll items).Carries (history ++ items) := by
  induction items generalizing broadcast history with
  | nil => rwa [List.append_nil]
  | cons item rest ih =>
      rw [← List.singleton_append, ← List.append_assoc]
      exact ih (h.send item)

theorem oldest (h : broadcast.Carries history) :
    broadcast.oldest = history.length - broadcast.capacity := by
  rw [Broadcast.oldest, h.sent, h.kept, List.length_drop]
  omega

/-- A subscriber that misses nothing finds the rest of the history. -/
theorem pending (h : broadcast.Carries history) (hplace : broadcast.oldest ≤ place) :
    broadcast.pending place = (history.drop place).map .item := by
  rw [Broadcast.pending, if_neg (Nat.not_lt.2 hplace), h.kept, List.drop_drop, ← h.oldest,
    Nat.add_sub_cancel' hplace]

/-- Where something was missed, what is pending begins with a notice of it. -/
theorem prefix_of_pending (h : broadcast.Carries history)
    (hpending : items.map .item <+: broadcast.pending place) : items <+: history.drop place := by
  cases items with
  | nil => exact List.nil_prefix
  | cons item rest =>
      obtain ⟨later, heq⟩ := hpending
      by_cases hplace : broadcast.oldest ≤ place
      · rw [h.pending hplace] at heq
        obtain ⟨front, back, hback, hfront, _⟩ := List.map_eq_append_iff.1 heq.symm
        obtain rfl := List.map_injective_iff.2 (fun _ _ => Received.item.inj) hfront
        exact ⟨back, hback.symm⟩
      · rw [Broadcast.pending, if_pos (Nat.not_le.1 hplace)] at heq
        cases heq

/-- A subscriber that finds nothing but items pending has the rest of the history to receive. -/
theorem eq_of_pending (h : broadcast.Carries history)
    (hpending : broadcast.pending place = items.map .item) : items = history.drop place := by
  by_cases hplace : broadcast.oldest ≤ place
  · rw [h.pending hplace] at hpending
    exact (List.map_injective_iff.2 (fun _ _ => Received.item.inj) hpending).symm
  · rw [Broadcast.pending, if_pos (Nat.not_le.1 hplace)] at hpending
    cases items <;> cases hpending

end Carries

theorem advance_items (place : Nat) (items : List α) :
    advance place (items.map .item) = place + items.length := by
  induction items generalizing place with
  | nil => rfl
  | cons item rest ih =>
      rw [List.map_cons, advance, ih, List.length_cons]
      omega

/-- A subscriber that misses nothing receives what comes next in the history. -/
theorem Carries.receive_eq (h : broadcast.Carries history) (hplace : broadcast.oldest ≤ place)
    (limit : Nat) : broadcast.receive place (some limit) =
      (((history.drop place).take limit).map .item,
        place + ((history.drop place).take limit).length) := by
  rw [receive]
  simp only [h.pending hplace, ← List.map_take, advance_items]

/-- What a subscriber receives without missing anything comes next in the history. -/
theorem Carries.received (h : broadcast.Carries history) {limit : Option Nat}
    (hreceive : broadcast.receive place limit = (items.map .item, place')) :
    items <+: history.drop place ∧ place' = place + items.length := by
  obtain ⟨hitems, hplace⟩ := Prod.mk.inj hreceive
  constructor
  · refine h.prefix_of_pending ?_
    rw [← hitems]
    cases limit with
    | none => exact List.prefix_refl _
    | some limit => exact List.take_prefix limit _
  · rw [← hplace, hitems, advance_items]

end Broadcast

/-- The place of a subscriber, and what it has received so far. -/
structure Subscriber where
  place : Nat
  received : List Change

/-- What the committed calls told, and that together with what the calls of the open writer tell. -/
structure News where
  committed : List Change
  current : List Change

namespace Stage

/-- What a call tells in the open writer. -/
def news (call : Call) : Stage → List Change
  | idle _ => []
  | writing _ s => call.news s

/-- The changes that the open writer has recorded. -/
def recorded : Stage → List Change
  | idle _ => []
  | writing _ s => s.writer.changes

end Stage

namespace News

/-- The news after an event: a commit and a drop decide about what the writer has told. -/
def after (news : News) (stage : Stage) : Event → News
  | .call call => { news with current := news.current ++ stage.news call }
  | .commit _ => ⟨news.current, news.current⟩
  | .drop => ⟨news.committed, news.committed⟩
  | _ => news

end News

/-- A writer is committed with notice unless it has nothing to tell. The subscribers of a store are
gone when it is opened again. -/
def Event.Announced (news : News) : Event → Prop
  | .commit notify => notify = true ∨ news.current = news.committed
  | .reopen _ => False
  | _ => True

namespace Stage

/-- The stages of a store with a subscriber that is there from the start and misses nothing: it
receives as much as it likes of what is pending, whenever it likes. -/
inductive Followed : Stage → News → Subscriber → Prop where
  | start {opening : Opening} {store : Store} (h : opening.start .empty = .ok store)
      (hfresh : opening.fresh ≠ .nil) :
      Followed (idle store) ⟨[], []⟩ ⟨store.node.changes.subscribe, []⟩
  | step {stage stage' : Stage} {event : Event} {news : News} {subscriber : Subscriber}
      (h : Followed stage news subscriber) (hstep : Step stage event stage')
      (hannounced : event.Announced news) :
      Followed stage' (news.after stage event) subscriber
  | receive {stage : Stage} {news : News} {subscriber : Subscriber} {limit : Option Nat}
      {items : List Change} {place : Nat} (h : Followed stage news subscriber)
      (hreceive : stage.node.changes.receive subscriber.place limit = (items.map .item, place)) :
      Followed stage news ⟨place, subscriber.received ++ items⟩

/-- The news of a stage, its broadcast and its subscriber agree with its catalogs. -/
structure Informs (stage : Stage) (news : News) (subscriber : Subscriber) (base cur : Catalog) :
    Prop where
  presents : stage.Presents base cur
  committed : base.Told news.committed
  current : cur.Told news.current
  recorded : news.current = news.committed ++ stage.recorded
  carries : stage.node.changes.Carries news.committed
  place : subscriber.place ≤ news.committed.length
  received : subscriber.received = news.committed.take subscriber.place

variable {stage stage' : Stage} {event : Event} {news : News} {subscriber : Subscriber}
variable {base cur : Catalog}

/-- The broadcast of a store that was opened has sent nothing. -/
theorem carries_nil_of_start {opening : Opening} {store : Store}
    (hstart : opening.start .empty = .ok store) :
    store.node.changes.Carries [] ∧ store.node.changes.subscribe = 0 := by
  obtain ⟨_, _, _, hsteps⟩ := Opening.exists_of_start hstart
  rw [hsteps.changes]
  exact ⟨⟨rfl, rfl⟩, rfl⟩

theorem Informs.start {opening : Opening} {store : Store}
    (hstart : opening.start .empty = .ok store) (hfresh : opening.fresh ≠ .nil) :
    (idle store).Informs ⟨[], []⟩ ⟨store.node.changes.subscribe, []⟩
      (.initial store.node.serverId) (.initial store.node.serverId) := by
  obtain ⟨hcarries, hplace⟩ := carries_nil_of_start hstart
  exact ⟨.start hstart hfresh, .initial _, .initial _, rfl, hcarries, Nat.le_of_eq hplace,
    List.take_nil.symm⟩

/-- One event keeps the news, the broadcast and the subscriber in agreement with the catalogs. -/
theorem Step.informs (hstep : Step stage event stage') (hannounced : event.Announced news)
    (h : stage.Informs news subscriber base cur) :
    ∃ base' cur', stage'.Informs (news.after stage event) subscriber base' cur' := by
  obtain ⟨base', cur', hpresents, hmoves⟩ := hstep.presents h.presents
  refine ⟨base', cur', ?_⟩
  cases hstep with
  | @openWriter store writer engine hopen =>
      cases hmoves
      obtain ⟨rfl, rfl⟩ := Node.eq_of_openWriter hopen
      exact ⟨hpresents, h.committed, h.current, h.recorded, h.carries, h.place, h.received⟩
  | @call engine s call _ _ =>
      cases hmoves with
      | call call hroom hevolves hnamed =>
      obtain ⟨hs, _, home, hcommitted, hshows⟩ := h.presents.carries
      obtain ⟨_, _, _, _, hshows'⟩ := hpresents.carries
      have hrecorded : news.current = news.committed ++ s.writer.changes := h.recorded
      have htold : s.Told home cur news.committed s.writer.changes :=
        ⟨hshows, rfl, hrecorded ▸ h.current⟩
      obtain ⟨c', htold'⟩ := call.told_finish htold hs h.presents.named_cur hroom
        hcommitted.serverId
      obtain rfl := hshows'.catalog_unique htold'.shows
      have hnews : news.current ++ call.news s =
          news.committed ++ (call.finish s).writer.changes := by
        rw [hrecorded, htold'.changes, List.append_assoc]
      have hchanges : (call.finish s).node.changes = s.node.changes := by
        rw [htold'.shows.changes_eq, hshows.changes_eq]
      refine ⟨hpresents, h.committed, ?_, hnews, ?_, h.place, h.received⟩
      · show Catalog.Told _ (news.current ++ call.news s)
        rw [hnews, htold'.changes]
        exact htold'.told
      · show (call.finish s).node.changes.Carries _
        rw [hchanges]
        exact h.carries
  | @commit engine s notify =>
      cases hmoves
      have hrecorded : news.current = news.committed ++ s.writer.changes := h.recorded
      refine ⟨hpresents, h.current, h.current, (List.append_nil _).symm, ?_, ?_, ?_⟩
      · show Broadcast.Carries (if notify then s.node.changes.sendAll s.writer.changes
          else s.node.changes) news.current
        cases notify with
        | true =>
            rw [hrecorded]
            exact h.carries.sendAll s.writer.changes
        | false =>
            rw [hannounced.resolve_left Bool.false_ne_true]
            exact h.carries
      · show _ ≤ news.current.length
        rw [hrecorded, List.length_append]
        exact Nat.le_add_right_of_le h.place
      · show _ = news.current.take _
        rw [hrecorded, List.take_append_of_le_length h.place]
        exact h.received
  | @drop engine s =>
      cases hmoves
      exact ⟨hpresents, h.committed, h.committed, (List.append_nil _).symm, h.carries, h.place,
        h.received⟩
  | reopen hstart => exact hannounced.elim
  | outside clock signal =>
      cases hmoves
      exact ⟨hpresents, h.committed, h.current, h.recorded, h.carries, h.place, h.received⟩
  | outsideWriting clock signal =>
      cases hmoves
      exact ⟨hpresents, h.committed, h.current, h.recorded, h.carries, h.place, h.received⟩

theorem Informs.receive {limit : Option Nat} {items : List Change} {place : Nat}
    (h : stage.Informs news subscriber base cur)
    (hreceive : stage.node.changes.receive subscriber.place limit = (items.map .item, place)) :
    stage.Informs news ⟨place, subscriber.received ++ items⟩ base cur := by
  obtain ⟨⟨later, hlater⟩, rfl⟩ := h.carries.received hreceive
  refine ⟨h.presents, h.committed, h.current, h.recorded, h.carries, ?_, ?_⟩
  · have hlength := congrArg List.length hlater
    rw [List.length_append, List.length_drop] at hlength
    have hplace := h.place
    show subscriber.place + items.length ≤ _
    omega
  · show subscriber.received ++ items = news.committed.take (subscriber.place + items.length)
    rw [List.take_add, ← hlater, List.take_left, h.received]

/-- In every state of a run the news agree with the catalogs. -/
theorem Followed.informs (h : Followed stage news subscriber) :
    ∃ base cur, stage.Informs news subscriber base cur := by
  induction h with
  | start hstart hfresh => exact ⟨_, _, .start hstart hfresh⟩
  | step h hstep hannounced ih =>
      obtain ⟨base, cur, hinforms⟩ := ih
      exact hstep.informs hannounced hinforms
  | receive h hreceive ih =>
      obtain ⟨base, cur, hinforms⟩ := ih
      exact ⟨base, cur, hinforms.receive hreceive⟩

end Stage

/-- A look-up in the trees finds the counters live of which the changes tell, and no others. -/
def Transaction.LivesBy (t : Transaction) (changes : List Change) : Prop :=
  ∀ group name, ∃ found, Index.liveId? t group name = .ok found ∧
    (found.isSome = true ↔ Change.TellLive changes group name)

theorem Catalog.Told.livesBy {c : Catalog} {changes : List Change} {t : Transaction}
    (h : c.Told changes) (hshows : t.trees.Shows c.ledger) : t.LivesBy changes := by
  intro group name
  refine ⟨_, index_liveId? hshows, ?_⟩
  rw [isSome_liveId?_iff]
  exact h group name

namespace Stage

/-- Any calls can follow each other in one writer while the sequences have room for all of them. -/
theorem Followed.calls {engine : Engine} (calls : List Call) {s : Session} {news : News}
    {subscriber : Subscriber} {c : Catalog} (h : Followed (writing engine s) news subscriber)
    (hholds : (writing engine s).Holds c) (hroom : c.HasRoom (calls.map Call.writes).sum) :
    ∃ current, Followed (writing engine (calls.foldl (fun s call => call.finish s) s))
      ⟨news.committed, current⟩ subscriber := by
  induction calls generalizing s news c with
  | nil => exact ⟨news.current, h⟩
  | cons call rest ih =>
      rw [List.map_cons, List.sum_cons] at hroom
      obtain ⟨hstep, c', hholds', hroom'⟩ := hholds.call hroom
      have hrest := ih (h.step hstep trivial) hholds' hroom'
      exact hrest

/-- A subscriber that receives what is pending has received what the committed calls told, in the
order of the calls, and by that it knows which counters readers find live; the writer finds live
those of which the committed calls and its own tell. -/
theorem Followed.tells_liveness {stage : Stage} {news : News} {subscriber : Subscriber}
    (h : Followed stage news subscriber) :
    (∀ items, stage.node.changes.pending subscriber.place = items.map .item →
      subscriber.received ++ items = news.committed ∧
      stage.reader.LivesBy (subscriber.received ++ items)) ∧
    stage.transaction.LivesBy news.current := by
  obtain ⟨base, cur, hinforms⟩ := h.informs
  refine ⟨fun items hpending => ?_, hinforms.current.livesBy hinforms.presents.transaction_shows⟩
  have hall : subscriber.received ++ items = news.committed := by
    rw [hinforms.carries.eq_of_pending hpending, hinforms.received, List.take_append_drop]
  rw [hall]
  exact ⟨rfl, hinforms.committed.livesBy hinforms.presents.reader_shows⟩

/-- A counter is deleted, and revived by the write of another node; a call that fails and a purge
tell nothing. -/
def announced : List Call :=
  [.store "group" "name" 5, .reset "group" "other", .delete "group" "name", .purge,
    .storeReplicated "group" "name" (.ofByte 9) .negative 2, .store "group" "name" (-1)]

/-- What is told of these calls. -/
def announcements : List Change :=
  [⟨"group", "name", .add, plainOpening.fresh⟩, ⟨"group", "name", .decrement, plainOpening.fresh⟩,
    .deletion "group" "name", ⟨"group", "name", .add, .ofByte 9⟩,
    ⟨"group", "name", .decrement, plainOpening.fresh⟩]

theorem tells_liveness_of_revival : ∃ stage news subscriber,
    Followed stage news subscriber ∧
    subscriber.received = announcements.take 2 ∧
    stage.node.changes.pending subscriber.place = (announcements.drop 2).map .item ∧
    announcements = news.committed ∧
    stage.reader.LivesBy announcements := by
  obtain ⟨store, hstart, hholds⟩ :=
    Opening.exists_start_empty (rfl : plainOpening.config.validate = .ok ()) (by decide) (by decide)
  have hopen := store.node.openWriter_of_unlocked hholds.unlocked
  have hstarted := Followed.start hstart (by decide)
  rw [(carries_nil_of_start hstart).2] at hstarted
  have hopened : Followed (writing _ _) ⟨[], []⟩ ⟨0, []⟩ :=
    hstarted.step (.openWriter hopen) trivial
  have hzero : (0 : UInt64).toNat + (announced.map Call.writes).sum < UInt64.size := by decide
  obtain ⟨current, hcalls⟩ := hopened.calls announced (c := .initial plainOpening.fresh)
    ⟨hholds.keeps.sound, hholds.keeps.records, store.node, _, hholds.keeps,
      hholds.keeps.shows_firstWriter⟩ ⟨hzero, hzero⟩
  have hfacts : (match plainOpening.start .empty with
      | .ok store =>
          let s := announced.foldl (fun s call => call.finish s)
            ⟨store.node, store.node.firstWriter store.engine.committed⟩
          (s.writer.changes, (s.node.changes.sendAll s.writer.changes).oldest)
      | .error _ => ([], 0)) = (announcements, 0) := by
    decide +kernel
  rw [hstart] at hfacts
  dsimp only at hfacts
  generalize announced.foldl (fun s call => call.finish s)
    ⟨store.node, store.node.firstWriter store.engine.committed⟩ = s at hcalls hfacts
  obtain ⟨hrecorded, holdest⟩ := Prod.mk.inj hfacts
  obtain ⟨_, _, hinforms⟩ := hcalls.informs
  obtain rfl : current = announcements := hinforms.recorded.trans hrecorded
  have hcommit : Followed (idle _) ⟨announcements, announcements⟩ ⟨0, []⟩ :=
    hcalls.step (.commit true) (.inl rfl)
  obtain ⟨_, _, hinforms'⟩ := hcommit.informs
  have hplace : ∀ place, Broadcast.oldest _ ≤ place := fun place =>
    holdest.le.trans (Nat.zero_le place)
  have hreceived := hcommit.receive (hinforms'.carries.receive_eq (hplace 0) 2)
  have hrest := hinforms'.carries.pending (hplace 2)
  obtain ⟨hread, _⟩ := hreceived.tells_liveness
  obtain ⟨hall, hlive⟩ := hread _ hrest
  exact ⟨_, _, _, hreceived, rfl, hrest, hall, hlive⟩

end Stage

end CounterMesh
