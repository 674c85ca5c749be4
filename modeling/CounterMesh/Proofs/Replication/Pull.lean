import CounterMesh.Proofs.Replication.Intake

/-!
# Pulls

In an exchange the target applies a front of the feed of the source, from its
cursor for the source on. What it does to the slots of the target says how far
the target has caught up: every slot of a node that the cursor has passed holds
what it holds at the source, unless it belongs to the target, and every counter
is as the newest of its slots says that the cursor has passed.
-/

namespace CounterMesh.Catalog

/-- The catalog after the first entries of a feed behind its cursor for the sender. -/
def pull (c : Catalog) (own source : ServerId) (feed : List FeedEntry) (count : Nat) : Catalog :=
  c.apply own ⟨source, (feedAfter feed (c.cursorFor source)).take count⟩

/-- How many of these entries are put. -/
def pulled (c : Catalog) (own source : ServerId) (feed : List FeedEntry) (count : Nat) : Nat :=
  c.written own ((feedAfter feed (c.cursorFor source)).take count)

variable {c src c' : Catalog} {own source : ServerId} {feed : List FeedEntry} {count count' : Nat}

theorem pull_zero : c.pull own source feed 0 = c := apply_nil

theorem pulled_zero : c.pulled own source feed 0 = 0 := rfl

/-- Behind the cursor after a pull stands the rest of the feed. -/
theorem feedAfter_pull (h : src.Feed feed) :
    feedAfter feed ((c.pull own source feed count).cursorFor source) =
      (feedAfter feed (c.cursorFor source)).drop count := by
  rw [pull, cursorFor_apply_self, h.feedAfter_cursorAfter]

/-- Two pulls from one feed are one pull. -/
theorem pull_pull (h : src.Feed feed) :
    (c.pull own source feed count).pull own source feed count' =
      c.pull own source feed (count + count') := by
  rw [pull, feedAfter_pull h, pull, apply_append, ← List.take_add, pull]

theorem pulled_add (h : src.Feed feed) : c.pulled own source feed (count + count') =
    c.pulled own source feed count +
      (c.pull own source feed count).pulled own source feed count' := by
  rw [pulled, List.take_add, written_append, pulled, pulled, feedAfter_pull h, pull, written_apply]

/-- A pull that puts nothing moves the cursor and changes nothing else. -/
theorem pull_of_pulled_eq_zero (h : c.pulled own source feed count = 0) :
    c.pull own source feed count =
      { c with cursors := (c.pull own source feed count).cursors } := by
  conv_lhs => rw [pull, apply_eq, absorb_of_knows (written_eq_zero_iff.1 h)]
  rfl

/-- A node has nothing to take from its own feed. -/
theorem Feed.pulled_self (h : c.Feed feed) (hs : c.Sound) (hu : c.Undeleted) :
    c.pulled own own feed count = 0 := by
  refine written_eq_zero_iff.2 fun e he => ?_
  have hslot : c.slot e.slotName = some e.cell :=
    (h.mem_iff e).1 (List.mem_filter.1 (List.mem_of_mem_take he)).1
  refine (knows_iff_inPlace (hs.reserved_sign hslot)).2 (.inr ⟨?_, fun _ hdead => ?_⟩)
  · rw [hslot]
    rfl
  · exact hu.not_dead _ _ hdead

/-- A slot of the source that a cursor passes on its way. -/
structure Passed (src : Catalog) (since upTo : Etag) (k : SlotName) (cell : Cell) : Prop where
  slot : src.slot k = some cell
  since_lt : since < cell.etag
  le_upTo : cell.etag ≤ upTo

/-- What a pull makes of a catalog. -/
structure Pulls (own source : ServerId) (src c c' : Catalog) : Prop where
  /-- The slots that were written are slots of the source, with its values. -/
  renews : Renews (Imports own src) c c'
  cursor_le : c.cursorFor source ≤ c'.cursorFor source
  cursor_cases : c'.cursorFor source = c.cursorFor source ∨ c'.cursorFor source ≤ src.lastEtag
  cursor_of_ne : ∀ peer, peer ≠ source → c'.cursorFor peer = c.cursorFor peer
  /-- A foreign slot of a node that the cursor has passed holds what it holds at the source. -/
  caught_up : ∀ k cell, src.Passed (c.cursorFor source) (c'.cursorFor source) k cell →
    k.serverId ≠ .nil → k.serverId = own ∨ (c'.slot k).map Cell.value = some cell.value
  /-- Of the foreign slots of a counter that the cursor has passed the newest is in place; without
  any the counter is as it was. -/
  counter : ∀ group name,
    Untouched c c' group name ∧
        (∀ k cell, k.Of group name →
          src.Passed (c.cursorFor source) (c'.cursorFor source) k cell → k.serverId = own) ∨
      ∃ k cell, k.Of group name ∧
        src.Passed (c.cursorFor source) (c'.cursorFor source) k cell ∧ k.serverId ≠ own ∧
        c'.InPlace k cell.value ∧ ∀ k' cell', k'.Of group name →
          src.Passed (c.cursorFor source) (c'.cursorFor source) k' cell' → k'.serverId ≠ own →
            cell'.etag ≤ cell.etag

/-- What the cursor passes in a pull is what the pull applies. -/
theorem Feed.passed_iff (hfeed : src.Feed feed) (own : ServerId) (k : SlotName) (cell : Cell) :
    src.Passed (c.cursorFor source) ((c.pull own source feed count).cursorFor source) k cell ↔
      .about k cell ∈ (feedAfter feed (c.cursorFor source)).take count := by
  have hrest : feedAfter feed ((c.pull own source feed count).cursorFor source) =
      (feedAfter feed (c.cursorFor source)).drop count := feedAfter_pull hfeed
  constructor
  · rintro ⟨hk, hlt, hle⟩
    have he : .about k cell ∈ feedAfter feed (c.cursorFor source) :=
      List.mem_filter.2 ⟨hfeed.mem_about_iff.2 hk, decide_eq_true hlt⟩
    -- The cursor has passed the entry, so it is not among those that are left.
    rw [← List.take_append_drop count (feedAfter feed (c.cursorFor source)), ← hrest] at he
    refine (List.mem_append.1 he).resolve_right fun he => ?_
    exact absurd (of_decide_eq_true (List.mem_filter.1 he).2) (UInt64.not_lt.2 hle)
  · intro he
    obtain ⟨hmem, hlt⟩ := List.mem_filter.1 (List.mem_of_mem_take he)
    refine ⟨hfeed.mem_about_iff.1 hmem, of_decide_eq_true hlt, ?_⟩
    rw [pull, cursorFor_apply_self]
    exact etag_le_cursorAfter he

/-- A pull puts nothing exactly when all it passes belongs to the target or is in place there. -/
theorem Feed.pulled_eq_zero_iff (hfeed : src.Feed feed) (hsrc : src.Sound) (own : ServerId) :
    c.pulled own source feed count = 0 ↔ ∀ k cell,
      src.Passed (c.cursorFor source) ((c.pull own source feed count).cursorFor source) k cell →
        k.serverId = own ∨ c.InPlace k cell.value := by
  rw [pulled, written_eq_zero_iff]
  constructor
  · intro h k cell hk
    have he := (hfeed.passed_iff own k cell).1 hk
    have hreserved := hsrc.reserved_sign (e := .about k cell) hk.slot
    exact (knows_iff_inPlace hreserved).1 (h _ he)
  · intro h e he
    have hk := (hfeed.passed_iff own e.slotName e.cell).2 he
    exact (knows_iff_inPlace (hsrc.reserved_sign hk.slot)).2 (h _ _ hk)

theorem pulls_pull (hfeed : src.Feed feed) (hsrc : src.Sound) (hs : c.Sound)
    (hroom : c.HasRoom feed.length) (own source : ServerId) (count : Nat) :
    Pulls own source src c (c.pull own source feed count) := by
  generalize hfront : (feedAfter feed (c.cursorFor source)).take count = front
  have hbehind : ∀ {e}, e ∈ front → e ∈ feedAfter feed (c.cursorFor source) := by
    intro e he
    rw [← hfront] at he
    exact List.mem_of_mem_take he
  have hlength : front.length ≤ feed.length := by
    rw [← hfront]
    exact (List.length_take_le' _ _).trans (List.length_filter_le _ _)
  have hsorted : front.Pairwise fun e e' => e.etag < e'.etag := by
    rw [← hfront]
    exact (hfeed.sorted.sublist List.filter_sublist).sublist (List.take_sublist _ _)
  have hentries : ∀ e ∈ front, src.slot e.slotName = some e.cell :=
    fun e he => (hfeed.mem_iff e).1 (List.mem_filter.1 (hbehind he)).1
  have hpull : c.pull own source feed count = c.apply own ⟨source, front⟩ := by rw [pull, hfront]
  have hcursor : (c.pull own source feed count).cursorFor source =
      cursorAfter (c.cursorFor source) front := by rw [hpull, cursorFor_apply_self]
  have hslot : (c.pull own source feed count).slot = (c.absorb own front).slot := by
    rw [hpull, slot_apply]
  have hpassed : ∀ k cell, src.Passed (c.cursorFor source)
      ((c.pull own source feed count).cursorFor source) k cell ↔ .about k cell ∈ front := by
    intro k cell
    rw [← hfront]
    exact hfeed.passed_iff own k cell
  have habsorbed := absorbed_absorb own hs (hroom.mono hlength) hsrc hsorted hentries
  have hrenews : Renews (Imports own src) c (c.pull own source feed count) := by
    refine ⟨?_, ?_⟩
    · rw [hslot]
      exact habsorbed.renews.slot
    · rw [hpull, lastEtag_apply]
      exact habsorbed.renews.lastEtag_le
  constructor
  case renews => exact hrenews
  case cursor_le =>
    rw [hcursor]
    exact le_cursorAfter
  case cursor_cases =>
    rw [hcursor]
    refine (cursorAfter_cases _ _).imp id ?_
    rintro ⟨e, he, heq⟩
    rw [heq]
    exact hsrc.slot_etag_le (hentries e he)
  case cursor_of_ne =>
    intro peer hne
    rw [hpull, cursorFor_apply_of_ne hne]
  case caught_up =>
    intro k cell hk hnode
    rw [hslot]
    by_cases hown : k.serverId = own
    · exact .inl hown
    · exact .inr (habsorbed.holds _ ((hpassed k cell).1 hk) hnode hown)
  case counter =>
    intro group name
    have hinPlace : ∀ {k value}, (c.absorb own front).InPlace k value →
        (c.pull own source feed count).InPlace k value := by
      intro k value h
      refine ⟨hslot ▸ h.holds, fun hnode => ?_⟩
      rw [Dead, hslot]
      exact h.not_dead hnode
    rcases habsorbed.counter group name with ⟨hsame, hown⟩ |
      ⟨e, he, hof, hforeign, hplace, hnewest⟩
    · refine .inl ⟨?_, fun k cell hof hk => hown _ ((hpassed k cell).1 hk) hof⟩
      rw [Untouched, hslot]
      exact hsame
    · refine .inr ⟨e.slotName, e.cell, hof, (hpassed _ _).2 he, hforeign, hinPlace hplace, ?_⟩
      exact fun k cell hof' hk hforeign' => hnewest _ ((hpassed k cell).1 hk) hof' hforeign'

namespace Pulls

variable {group name : String} {k : SlotName} {cell : Cell}

/-- Every slot of an undeleted catalog that the cursor has passed is in place, unless it belongs to
the target. -/
theorem taken (h : Pulls own source src c c') (hsrc : src.Sound) (hu : src.Undeleted)
    (hk : src.Passed (c.cursorFor source) (c'.cursorFor source) k cell) :
    k.serverId = own ∨ (c'.slot k).map Cell.value = some cell.value :=
  h.caught_up k cell hk (hu.slot_nil hsrc hk.slot)

/-- A counter whose tombstone at the source the cursor has passed is deleted by it, unless the
cursor was there before and nothing of the counter is new. -/
theorem counter_of_source (h : Pulls own source src c c') (hsrc : src.Sound) (hown : own ≠ .nil)
    (ht : src.slot (.tombstone group name) = some cell)
    (hle : cell.etag ≤ c'.cursorFor source) :
    Untouched c c' group name ∧
        (∀ k cell, k.Of group name →
          src.Passed (c.cursorFor source) (c'.cursorFor source) k cell → k.serverId = own) ∨
      (c'.slot (.tombstone group name)).map Cell.value = some cell.value := by
  rcases h.counter group name with hsame | ⟨k, cell', ⟨rfl, rfl⟩, hk, hforeign, hplace, hnewest⟩
  · exact .inl hsame
  · -- The tombstone is the newest slot of its counter, and so the newest that was passed.
    refine .inr ?_
    by_cases hnode : k.serverId = .nil
    · have htombstone := hsrc.eq_tombstone hk.slot hnode
      have hcell := hk.slot
      rw [htombstone, ht, Option.some.injEq] at hcell
      rw [← htombstone, hcell]
      exact hplace.holds
    · have hlt := hsrc.etag_lt_tombstone hk.slot ht hnode
      have hpassed : src.Passed (c.cursorFor source) (c'.cursorFor source)
          (.tombstone k.group k.name) cell := ⟨ht, UInt64.lt_trans hk.since_lt hlt, hle⟩
      exact absurd (hnewest _ _ (SlotName.of_tombstone ..) hpassed hown.symm)
        (UInt64.not_le.2 hlt)

/-- A counter that is deleted after a pull is deleted by the tombstone of the source, unless the
pull has left it as it was. -/
theorem counter_of_target (h : Pulls own source src c c') (hsrc : src.Sound)
    (ht : c'.slot (.tombstone group name) = some cell) :
    Untouched c c' group name ∧
        (∀ k cell, k.Of group name →
          src.Passed (c.cursorFor source) (c'.cursorFor source) k cell → k.serverId = own) ∨
      (src.slot (.tombstone group name)).map Cell.value = some cell.value := by
  rcases h.counter group name with hsame | ⟨k, cell', ⟨rfl, rfl⟩, hk, _, hplace, _⟩
  · exact .inl hsame
  · refine .inr ?_
    have hdead : c'.Dead k.group k.name := by
      rw [Dead, ht]
      rfl
    have htombstone := hsrc.eq_tombstone hk.slot (by
      by_contra hnode
      exact hplace.not_dead hnode hdead)
    have hvalue := hplace.holds
    rw [htombstone, ht] at hvalue
    rw [← htombstone, hk.slot]
    exact hvalue.symm

end Pulls

end CounterMesh.Catalog
