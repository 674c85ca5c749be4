import CounterMesh.Proofs.Replication.Feed
import CounterMesh.Proofs.Store.Operations
import CounterMesh.Replication.Message

/-!
# What a catalog takes over from a feed

A node goes through the entries of a message and puts every one that it does not
know yet; then it moves its cursor for the sender. Messages one after another do
what one message with all their entries does.
-/

namespace CounterMesh

/-- Where a cursor stands after these entries. It never moves backwards. -/
def cursorAfter (cursor : Etag) (entries : List FeedEntry) : Etag :=
  entries.foldl (fun cursor e => max cursor e.etag) cursor

section Cursor

variable {cursor : Etag} {entries : List FeedEntry}

theorem le_cursorAfter : cursor ≤ cursorAfter cursor entries := by
  induction entries generalizing cursor with
  | nil => exact UInt64.le_refl _
  | cons e rest ih => exact UInt64.le_trans Std.left_le_max ih

theorem cursorAfter_append (front rest : List FeedEntry) :
    cursorAfter cursor (front ++ rest) = cursorAfter (cursorAfter cursor front) rest :=
  List.foldl_append

theorem etag_le_cursorAfter {e : FeedEntry} (he : e ∈ entries) :
    e.etag ≤ cursorAfter cursor entries := by
  induction entries generalizing cursor with
  | nil => cases he
  | cons e' rest ih =>
      rcases List.mem_cons.1 he with rfl | he
      · exact UInt64.le_trans Std.right_le_max le_cursorAfter
      · exact ih he

theorem cursorAfter_cases (cursor : Etag) (entries : List FeedEntry) :
    cursorAfter cursor entries = cursor ∨ ∃ e ∈ entries, cursorAfter cursor entries = e.etag := by
  induction entries generalizing cursor with
  | nil => exact .inl rfl
  | cons e rest ih =>
      rcases ih (max cursor e.etag) with heq | ⟨e', he', heq⟩
      · rcases Std.max_eq_or (a := cursor) (b := e.etag) with hmax | hmax
        · exact .inl (heq.trans hmax)
        · exact .inr ⟨e, List.mem_cons_self, heq.trans hmax⟩
      · exact .inr ⟨e', .tail _ he', heq⟩

theorem lastEtag_eq_none_iff {message : Message} :
    message.lastEtag = none ↔ message.entries = [] := by
  rw [Message.lastEtag, List.max?_eq_none_iff, List.map_eq_nil_iff]

/-- The greatest etag of a message moves a cursor as its entries do. -/
theorem max_lastEtag {message : Message} {etag : Etag} (h : message.lastEtag = some etag)
    (cursor : Etag) : max etag cursor = cursorAfter cursor message.entries := by
  rw [Message.lastEtag] at h
  cases hentries : message.entries with
  | nil =>
      rw [hentries] at h
      cases h
  | cons e rest =>
      rw [hentries, List.map_cons, List.max?_cons', Option.some.injEq] at h
      calc max etag cursor
          = max cursor ((rest.map (·.etag)).foldl max e.etag) := by rw [← h, Word.max_comm]
        _ = (rest.map (·.etag)).foldl max (max cursor e.etag) := List.foldl_assoc.symm
        _ = cursorAfter cursor (e :: rest) := List.foldl_map

/-- The entries behind a cursor move it to the greatest etag of all entries, unless it stands there
or farther already. -/
theorem cursorAfter_feedAfter (since : Etag) (feed : List FeedEntry) :
    cursorAfter since (feedAfter feed since) = max since (cursorAfter 0 feed) := by
  refine UInt64.le_antisymm ?_ (Std.max_le_iff.2 ⟨le_cursorAfter, ?_⟩)
  · rcases cursorAfter_cases since (feedAfter feed since) with heq | ⟨e, he, heq⟩
    · rw [heq]
      exact Std.left_le_max
    · rw [heq]
      exact UInt64.le_trans (etag_le_cursorAfter (List.mem_of_mem_filter he)) Std.right_le_max
  · rcases cursorAfter_cases 0 feed with heq | ⟨e, he, heq⟩
    · rw [heq]
      exact UInt64.zero_le
    · rw [heq]
      by_cases hlt : since < e.etag
      · exact etag_le_cursorAfter (List.mem_filter.2 ⟨he, decide_eq_true hlt⟩)
      · exact UInt64.le_trans (UInt64.not_lt.1 hlt) le_cursorAfter

/-- Behind the cursor after a front of the feed stands the rest of the feed. -/
theorem Catalog.Feed.feedAfter_cursorAfter {c : Catalog} {feed : List FeedEntry} (h : c.Feed feed)
    (since : Etag) (count : Nat) :
    feedAfter feed (cursorAfter since ((feedAfter feed since).take count)) =
      (feedAfter feed since).drop count := by
  generalize hcursor : cursorAfter since ((feedAfter feed since).take count) = cursor
  have hsorted : (feedAfter feed since).Pairwise fun e e' => e.etag < e'.etag :=
    h.sorted.sublist List.filter_sublist
  have hsince : ∀ e ∈ feedAfter feed since, since < e.etag := fun e he =>
    of_decide_eq_true (List.mem_filter.1 he).2
  have hle : since ≤ cursor := hcursor ▸ le_cursorAfter
  have hfilter : feedAfter feed cursor = feedAfter (feedAfter feed since) cursor := by
    rw [feedAfter, feedAfter, feedAfter, List.filter_filter]
    refine List.filter_congr fun e _ => ?_
    rw [Bool.eq_iff_iff, Bool.and_eq_true, decide_eq_true_iff, decide_eq_true_iff]
    exact (and_iff_left_of_imp fun hlt => UInt64.lt_of_le_of_lt hle hlt).symm
  have hfront : ∀ e ∈ (feedAfter feed since).take count, ¬ cursor < e.etag := fun e he =>
    UInt64.not_lt.2 (hcursor ▸ etag_le_cursorAfter he)
  have hrest : ∀ e ∈ (feedAfter feed since).drop count, cursor < e.etag := by
    intro e he
    rcases cursorAfter_cases since ((feedAfter feed since).take count) with heq | ⟨e', he', heq⟩
    · rw [← hcursor, heq]
      exact hsince e (List.mem_of_mem_drop he)
    · rw [← hcursor, heq]
      rw [← List.take_append_drop count (feedAfter feed since), List.pairwise_append] at hsorted
      exact hsorted.2.2 e' he' e he
  rw [hfilter, feedAfter]
  conv_lhs => rw [← List.take_append_drop count (feedAfter feed since)]
  rw [List.filter_append, List.filter_eq_nil_iff.2 fun e he => by simpa using hfront e he,
    List.filter_eq_self.2 fun e he => decide_eq_true (hrest e he), List.nil_append]

/-- The greatest indexed etag is where the whole feed moves a new cursor. -/
theorem Catalog.Feed.index_lastIndexedEtag {c : Catalog} {feed : List FeedEntry}
    (hfeed : c.Feed feed) {t : Transaction} (h : t.trees.Shows c.ledger) (hs : c.Sound) :
    Index.lastIndexedEtag t = .ok (cursorAfter 0 feed) := by
  obtain ⟨tree, hplain, htree⟩ := Transaction.plain_of_shows h .places
  obtain ⟨rows, hrows, hmem⟩ := htree.rows
  have hlast : t.last Layout.etagToKey = .ok tree.last? := by
    have hplain' : t.plain Layout.etagToKey = .ok tree := hplain
    rw [Transaction.last, hplain']
    rfl
  have hsorted : rows.Pairwise fun row row' => row.1 < row'.1 := by
    have htoList := tree.sorted
    rw [hrows, List.pairwise_map] at htoList
    exact htoList.imp fun hlt => (Word.compare_big_lt_iff _ _).1 hlt
  -- The rows are about the entries of the feed, by their etags.
  have hrow : ∀ e ∈ feed, ∃ p, (e.etag, p) ∈ rows := by
    intro e he
    obtain ⟨id, _, hcell⟩ := slot_eq_some_iff.1 ((hfeed.mem_iff e).1 he)
    exact ⟨_, (hmem _ _).2 (c.etagAt_eq_some_iff.2 ⟨_, hcell⟩)⟩
  have hentry : ∀ row ∈ rows, row.1 ≤ cursorAfter 0 feed := by
    rintro ⟨etag, p⟩ hrow
    obtain ⟨value, hcell⟩ := c.etagAt_eq_some_iff.1 ((hmem _ _).1 hrow)
    obtain ⟨group, name, _, hslot⟩ := hs.exists_slot hcell
    exact etag_le_cursorAfter (hfeed.mem_about_iff.2 hslot)
  rw [Index.lastIndexedEtag, hlast, OrdMap.last?, hrows]
  rcases List.eq_nil_or_concat' rows with rfl | ⟨front, ⟨etag, p⟩, rfl⟩
  · have hnil : feed = [] := List.eq_nil_iff_forall_not_mem.2 fun e he => by
      obtain ⟨p, hp⟩ := hrow e he
      cases hp
    rw [hnil]
    rfl
  · have hle : cursorAfter 0 feed ≤ etag := by
      rcases cursorAfter_cases 0 feed with heq | ⟨e, he, heq⟩
      · rw [heq]
        exact UInt64.zero_le
      · obtain ⟨p', hp'⟩ := hrow e he
        rw [heq]
        rcases List.mem_append.1 hp' with hfront | hlast
        · rw [List.pairwise_append] at hsorted
          exact UInt64.le_of_lt (hsorted.2.2 _ hfront _ List.mem_cons_self)
        · rw [(Prod.mk.inj (List.mem_singleton.1 hlast)).1]
          exact UInt64.le_refl _
    have heq : etag = cursorAfter 0 feed :=
      UInt64.le_antisymm (hentry (etag, p) (List.mem_append_right _ List.mem_cons_self)) hle
    rw [List.map_append, List.map_singleton, List.getLast?_concat, ← heq]
    exact Stored.word_big Layout.etagToKey etag

end Cursor

namespace Catalog

/-- The entry is about a slot of the node itself, or the slot is in place with this value: a
tombstone while its counter is deleted, any other slot while its counter is live. -/
def knows (c : Catalog) (own : ServerId) (e : FeedEntry) : Bool :=
  e.serverId == own ||
    ((c.slot e.slotName).map Cell.value == some e.value &&
      (c.liveId? e.group e.name).isSome != e.serverId.isNil)

/-- The catalog after one entry. -/
def receive (c : Catalog) (own : ServerId) (e : FeedEntry) : Catalog :=
  if c.knows own e then c else c.put e.group e.name e.serverId (e.sign.under e.serverId) e.value

/-- The catalog after entries one after another. -/
def absorb (c : Catalog) (own : ServerId) (entries : List FeedEntry) : Catalog :=
  entries.foldl (fun c e => c.receive own e) c

/-- How many of the entries are put. -/
def written (c : Catalog) (own : ServerId) : List FeedEntry → Nat
  | [] => 0
  | e :: rest => (if c.knows own e then 0 else 1) + (c.receive own e).written own rest

/-- The cursor for a peer; a peer whose feed was never read has none. -/
def cursorFor (c : Catalog) (serverId : ServerId) : Etag := (c.cursors serverId).getD 0

/-- The catalog after a message: its entries are absorbed, and the cursor for the sender moves
on. -/
def apply (c : Catalog) (own : ServerId) (message : Message) : Catalog :=
  if message.entries = [] then c
  else (c.absorb own message.entries).setCursor message.serverId
    (cursorAfter (c.cursorFor message.serverId) message.entries)

/-- The slots that a node takes over, with their values: those of other nodes. -/
def Imports (own : ServerId) (source : Catalog) (k : SlotName) (value : Int64) : Prop :=
  k.serverId ≠ own ∧ (source.slot k).map Cell.value = some value

variable {c source : Catalog} {own : ServerId} {e : FeedEntry} {entries : List FeedEntry}

@[simp] theorem absorb_nil : c.absorb own [] = c := rfl

@[simp] theorem absorb_cons :
    c.absorb own (e :: entries) = (c.receive own e).absorb own entries := rfl

theorem knows_iff : c.knows own e = true ↔ e.serverId = own ∨
    (c.slot e.slotName).map Cell.value = some e.value ∧
      (c.liveId? e.group e.name).isSome ≠ e.serverId.isNil := by
  simp [knows]

theorem receive_of_knows (h : c.knows own e = true) : c.receive own e = c := if_pos h

theorem receive_of_not_knows (h : c.knows own e = false) : c.receive own e =
    c.put e.group e.name e.serverId (e.sign.under e.serverId) e.value := by
  rw [receive, h]
  rfl

theorem cursors_receive : (c.receive own e).cursors = c.cursors := by
  rw [receive]
  split
  · rfl
  · exact cursors_put ..

theorem cursors_absorb : (c.absorb own entries).cursors = c.cursors := by
  induction entries generalizing c with
  | nil => rfl
  | cons e rest ih => rw [absorb_cons, ih, cursors_receive]

/-- Every entry is at most one write. -/
theorem evolves_receive {purge : Prop} {k : Nat} {c₀ : Catalog} (h : Evolves purge k c₀ c)
    (own : ServerId) (e : FeedEntry) : Evolves purge (k + 1) c₀ (c.receive own e) := by
  rw [receive]
  split
  · exact h.mono (by omega)
  · exact h.put e.group e.name e.serverId _ e.value (Sign.under_nil e.sign)

theorem evolves_absorb {purge : Prop} {k : Nat} {c₀ : Catalog} (h : Evolves purge k c₀ c) :
    Evolves purge (k + entries.length) c₀ (c.absorb own entries) := by
  induction entries generalizing c k with
  | nil => exact h
  | cons e rest ih =>
      have hlength : k + (e :: rest).length = k + 1 + rest.length := by
        rw [List.length_cons]
        omega
      rw [hlength]
      exact ih (evolves_receive h own e)

/-- Nothing is put exactly when all entries are known from the start. -/
theorem written_eq_zero_iff :
    c.written own entries = 0 ↔ ∀ e ∈ entries, c.knows own e = true := by
  induction entries with
  | nil => exact ⟨fun _ => nofun, fun _ => rfl⟩
  | cons e rest ih =>
      rw [written, Nat.add_eq_zero_iff, List.forall_mem_cons]
      cases hknows : c.knows own e with
      | true =>
          rw [receive_of_knows hknows, ih]
          simp
      | false => simp

theorem absorb_of_knows (h : ∀ e ∈ entries, c.knows own e = true) : c.absorb own entries = c := by
  induction entries with
  | nil => rfl
  | cons e rest ih =>
      rw [List.forall_mem_cons] at h
      rw [absorb_cons, receive_of_knows h.1, ih h.2]

section Messages

variable {peer : ServerId} {etag : Etag} {front rest : List FeedEntry}

theorem put_setCursor {group name : String} {serverId : ServerId} {sign : Sign} {value : Int64} :
    (c.setCursor peer etag).put group name serverId sign value =
      (c.put group name serverId sign value).setCursor peer etag := by
  have hids : (c.setCursor peer etag).ids = c.ids := rfl
  rw [put, put, reserve, reserve, hids]
  cases c.ids group name <;> rfl

theorem receive_setCursor :
    (c.setCursor peer etag).receive own e = (c.receive own e).setCursor peer etag := by
  have hknows : (c.setCursor peer etag).knows own e = c.knows own e := rfl
  rw [receive, receive, hknows]
  split
  · rfl
  · exact put_setCursor

theorem absorb_setCursor :
    (c.setCursor peer etag).absorb own entries = (c.absorb own entries).setCursor peer etag := by
  induction entries generalizing c with
  | nil => rfl
  | cons e rest ih => rw [absorb_cons, receive_setCursor, ih, absorb_cons]

theorem written_setCursor :
    (c.setCursor peer etag).written own entries = c.written own entries := by
  induction entries generalizing c with
  | nil => rfl
  | cons e rest ih =>
      rw [written, written, receive_setCursor, ih]
      rfl

theorem cursors_setCursor :
    (c.setCursor peer etag).cursors = Function.update c.cursors peer (some etag) := rfl

theorem setCursor_setCursor {etag' : Etag} :
    (c.setCursor peer etag).setCursor peer etag' = c.setCursor peer etag' := by
  rw [setCursor, cursors_setCursor, Function.update_idem]
  rfl

theorem cursorFor_setCursor_self : (c.setCursor peer etag).cursorFor peer = etag := by
  rw [cursorFor, cursors_setCursor, Function.update_self]
  rfl

theorem cursorFor_setCursor_of_ne {peer' : ServerId} (h : peer' ≠ peer) :
    (c.setCursor peer etag).cursorFor peer' = c.cursorFor peer' := by
  rw [cursorFor, cursors_setCursor, Function.update_of_ne h, cursorFor]

theorem cursorFor_absorb : (c.absorb own entries).cursorFor peer = c.cursorFor peer := by
  rw [cursorFor, cursors_absorb, cursorFor]

theorem apply_nil : c.apply own ⟨peer, []⟩ = c := if_pos rfl

theorem cursorFor_apply_self : (c.apply own ⟨peer, entries⟩).cursorFor peer =
    cursorAfter (c.cursorFor peer) entries := by
  rw [apply]
  split
  · next h =>
    have hnil : entries = [] := h
    rw [hnil]
    rfl
  · exact cursorFor_setCursor_self

theorem cursorFor_apply_of_ne {peer' : ServerId} (h : peer' ≠ peer) :
    (c.apply own ⟨peer, entries⟩).cursorFor peer' = c.cursorFor peer' := by
  rw [apply]
  split
  · rfl
  · rw [cursorFor_setCursor_of_ne h, cursorFor_absorb]

/-- Beside its cursor the catalog is what it absorbs. -/
theorem apply_eq : c.apply own ⟨peer, entries⟩ =
    { c.absorb own entries with cursors := (c.apply own ⟨peer, entries⟩).cursors } := by
  rw [apply]
  split
  · next h =>
    have hnil : entries = [] := h
    rw [hnil]
    rfl
  · rfl

theorem slot_apply : (c.apply own ⟨peer, entries⟩).slot = (c.absorb own entries).slot := by
  rw [apply_eq]
  rfl

theorem deleted_apply : (c.apply own ⟨peer, entries⟩).Deleted = (c.absorb own entries).Deleted := by
  rw [apply_eq]
  rfl

theorem lastEtag_apply :
    (c.apply own ⟨peer, entries⟩).lastEtag = (c.absorb own entries).lastEtag := by
  rw [apply_eq]

theorem evolves_apply {purge : Prop} {k : Nat} {c₀ : Catalog} (h : Evolves purge k c₀ c)
    (message : Message) :
    Evolves purge (k + message.entries.length) c₀ (c.apply own message) := by
  rw [apply]
  split
  · exact h.mono (by omega)
  · exact (evolves_absorb h).cursor ..

theorem absorb_append : c.absorb own (front ++ rest) = (c.absorb own front).absorb own rest :=
  List.foldl_append

theorem written_append : c.written own (front ++ rest) =
    c.written own front + (c.absorb own front).written own rest := by
  induction front generalizing c with
  | nil => rw [List.nil_append, written, absorb_nil, Nat.zero_add]
  | cons e front ih => rw [List.cons_append, written, written, ih, absorb_cons, Nat.add_assoc]

theorem written_apply : (c.apply own ⟨peer, front⟩).written own rest =
    (c.absorb own front).written own rest := by
  rw [apply]
  split
  · next h =>
    have hnil : front = [] := h
    rw [hnil, absorb_nil]
  · exact written_setCursor

/-- Two messages of one sender do what one message with the entries of both does. -/
theorem apply_append : (c.apply own ⟨peer, front⟩).apply own ⟨peer, rest⟩ =
    c.apply own ⟨peer, front ++ rest⟩ := by
  by_cases hfront : front = []
  · rw [hfront, apply_nil, List.nil_append]
  · by_cases hrest : rest = []
    · rw [hrest, apply_nil, List.append_nil]
    · have happend : front ++ rest ≠ [] := by simp [hfront]
      have hcursor : (c.apply own ⟨peer, front⟩).cursorFor peer =
          cursorAfter (c.cursorFor peer) front := cursorFor_apply_self
      rw [apply, if_neg hrest, hcursor, apply, if_neg hfront, apply, if_neg happend,
        absorb_setCursor, setCursor_setCursor, absorb_append, cursorAfter_append]

end Messages

end Catalog

end CounterMesh
