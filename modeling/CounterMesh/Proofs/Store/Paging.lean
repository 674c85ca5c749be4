import CounterMesh.Proofs.Store.Indexes
import CounterMesh.Proofs.Store.Listing
import CounterMesh.Proofs.Store.Stages

/-!
# Pages

All live counters stand in one roll, group by group and by entry inside a group.
The roll is determined by what look-ups and totals answer. Every listing is a part
of it: a page leaves some counters out in front and stops after some, so that pages
one behind the other go through the roll without a gap and without a counter told
twice. Groups and counts are read from other trees and by other functions than
pages, and agree with the roll all the same.
-/

namespace CounterMesh

namespace Enrolled

theorem Before.irrefl (x : Enrolled) : ¬ x.Before x := by
  simp [Before]

theorem Before.asymm {x y : Enrolled} (h : x.Before y) : ¬ y.Before x := by
  rintro (hgroup' | ⟨heq', hentry'⟩)
  · rcases h with hgroup | ⟨heq, _⟩
    · simp [Std.OrientedCmp.gt_of_lt hgroup] at hgroup'
    · simp [heq] at hgroup'
  · rcases h with hgroup | ⟨_, hentry⟩
    · simp [heq'] at hgroup
    · simp [Std.OrientedCmp.gt_of_lt hentry] at hentry'

/-- Lists in the order of listings are equal if they have the same members. -/
theorem eq_of_sorted {list list' : List Enrolled} (h : list.Pairwise Before)
    (h' : list'.Pairwise Before) (hmem : ∀ x, x ∈ list ↔ x ∈ list') : list = list' := by
  have : Std.Irrefl Before := ⟨Before.irrefl⟩
  have : Std.Antisymm Before := ⟨fun _ _ hlt hlt' => absurd hlt' hlt.asymm⟩
  exact h.eq_of_mem_iff h' hmem

/-- The counters of one group, or of all groups when `group` is empty. -/
def part (group : String) (roll : List Enrolled) : List Enrolled :=
  if group.isEmpty then roll else roll.filter fun x => x.group = group

end Enrolled

namespace Index

variable {t : Transaction}

/-- All live counters with their totals, group by group in byte order, and inside a group in the
byte order of name and id. -/
structure Roll (t : Transaction) (roll : List Enrolled) : Prop where
  sorted : roll.Pairwise Enrolled.Before
  live_iff : ∀ group name id,
    liveId? t group name = .ok (some id) ↔ ∃ total, ⟨group, name, id, total⟩ ∈ roll
  total : ∀ x ∈ roll, totalOf t x.group x.name = .ok x.total

/-- The pages of these sizes, one behind the other. -/
def pages (t : Transaction) (group : String) : (skip : Nat) → (sizes : List Nat) →
    Except Error (List Summary)
  | _, [] => return []
  | skip, take :: sizes =>
    return (← summary t group skip take) ++ (← pages t group (skip + take) sizes)

/-- Every listing and every count of a store agrees with the roll. -/
structure Lists (t : Transaction) (roll : List Enrolled) : Prop where
  /-- No counter stands in the roll twice. -/
  once : (roll.map fun x => (x.group, x.name)).Nodup
  page : ∀ group skip take, summary t group skip take =
    .ok ((((Enrolled.part group roll).drop skip).take take).map Enrolled.summary)
  /-- Pages one behind the other, of any sizes, list every counter once. -/
  pages : ∀ group sizes, (Enrolled.part group roll).length ≤ sizes.sum →
    pages t group 0 sizes = .ok ((Enrolled.part group roll).map Enrolled.summary)
  /-- The groups are those with counters in the roll, in byte order, with the numbers of these. -/
  groups : ∃ sizes : List GroupSize, Index.groups t = .ok sizes ∧
    sizes.Pairwise (fun a b => compare (Bytes.ofText a.name) (Bytes.ofText b.name) = .lt) ∧
    (∀ group count, ⟨group, count⟩ ∈ sizes ↔
      0 < count ∧ count = roll.countP fun x => x.group = group) ∧
    groupsCount t = .ok sizes.length ∧ (sizes.map GroupSize.count).sum = roll.length
  countersCount : countersCount t = .ok roll.length
  /-- The deleted counters are counted, each once. -/
  tombstonesCount : ∃ deleted : List (String × String), deleted.Nodup ∧
    (∀ group name, (group, name) ∈ deleted ↔ ∃ id, deletedId? t group name = .ok (some id)) ∧
    tombstonesCount t = .ok deleted.length

namespace Roll

variable {roll roll' : List Enrolled}

theorem mem_iff (h : Roll t roll) (x : Enrolled) : x ∈ roll ↔
    liveId? t x.group x.name = .ok (some x.id) ∧ totalOf t x.group x.name = .ok x.total := by
  obtain ⟨group, name, id, total⟩ := x
  constructor
  · exact fun hx => ⟨(h.live_iff group name id).2 ⟨total, hx⟩, h.total _ hx⟩
  · rintro ⟨hlive, htotal⟩
    obtain ⟨total', hx⟩ := (h.live_iff group name id).1 hlive
    obtain rfl : total' = total := Except.ok.inj ((h.total _ hx).symm.trans htotal)
    exact hx

/-- There is one roll only. -/
theorem unique (h : Roll t roll) (h' : Roll t roll') : roll = roll' :=
  Enrolled.eq_of_sorted h.sorted h'.sorted fun x => (h.mem_iff x).trans (h'.mem_iff x).symm

theorem once (h : Roll t roll) : (roll.map fun x => (x.group, x.name)).Nodup := by
  rw [List.Nodup, List.pairwise_map]
  refine h.sorted.imp_of_mem fun {x y} hx hy hlt heq => ?_
  obtain ⟨hgroup, hname⟩ := Prod.mk.inj heq
  obtain ⟨hid, _⟩ := (h.mem_iff x).1 hx
  obtain ⟨hid', _⟩ := (h.mem_iff y).1 hy
  rw [← hgroup, ← hname, hid, Except.ok.injEq, Option.some.injEq] at hid'
  rcases hlt with hlt | ⟨_, hlt⟩
  · simp [hgroup] at hlt
  · simp [Enrolled.entry, hname, hid'] at hlt

end Roll

/-- Pages of all sizes together are one page of their sum. -/
theorem pages_of_page {group : String} {listed : List Enrolled}
    (h : ∀ skip take,
      summary t group skip take = .ok (((listed.drop skip).take take).map Enrolled.summary))
    (skip : Nat) (sizes : List Nat) :
    pages t group skip sizes =
      .ok (((listed.drop skip).take sizes.sum).map Enrolled.summary) := by
  induction sizes generalizing skip with
  | nil =>
      rw [List.sum_nil, List.take_zero]
      rfl
  | cons take sizes ih =>
      have hsplit : (listed.drop skip).take (take + sizes.sum) =
          (listed.drop skip).take take ++ (listed.drop (skip + take)).take sizes.sum := by
        rw [List.take_add, List.drop_drop]
      rw [pages, h, ih, List.sum_cons, hsplit, List.map_append]
      rfl

theorem Members.before {group : String} {members : List Enrolled} (h : Members t group members) :
    members.Pairwise Enrolled.Before := by
  refine h.sorted.imp_of_mem fun {x y} hx hy hlt => .inr ⟨?_, hlt⟩
  rw [h.group_eq x hx, h.group_eq y hy]

namespace Enrolls

variable {groups : List String} {members : String → List Enrolled}

theorem mem_flatMap_iff (h : Enrolls t groups members) (x : Enrolled) :
    x ∈ groups.flatMap members ↔ x ∈ members x.group := by
  constructor
  · intro hx
    obtain ⟨group, _, hx'⟩ := List.mem_flatMap.1 hx
    rwa [(h.members group).group_eq x hx']
  · exact fun hx => List.mem_flatMap.2 ⟨x.group, (h.mem_iff _).2 (List.ne_nil_of_mem hx), hx⟩

/-- The members of all groups, one group after another, make the roll. -/
theorem roll (h : Enrolls t groups members) : Roll t (groups.flatMap members) where
  sorted := by
    refine List.pairwise_flatMap.2 ⟨fun group _ => (h.members group).before, ?_⟩
    refine h.sorted.imp fun {group group'} hlt x hx y hy => .inl ?_
    rwa [(h.members group).group_eq x hx, (h.members group').group_eq y hy]
  live_iff := by
    intro group name id
    rw [(h.members group).live_iff]
    exact exists_congr fun total => (h.mem_flatMap_iff ⟨group, name, id, total⟩).symm
  total := fun x hx => (h.members x.group).total x ((h.mem_flatMap_iff x).1 hx)

/-- The counters of a group in the roll are its members. -/
theorem filter_roll (h : Enrolls t groups members) (group : String) :
    ((groups.flatMap members).filter fun x => x.group = group) = members group := by
  refine Enrolled.eq_of_sorted (h.roll.sorted.sublist List.filter_sublist) (h.members group).before
    fun x => ?_
  rw [List.mem_filter, h.mem_flatMap_iff, decide_eq_true_iff]
  constructor
  · rintro ⟨hx, rfl⟩
    exact hx
  · intro hx
    obtain rfl := (h.members group).group_eq x hx
    exact ⟨hx, rfl⟩

theorem part_roll (h : Enrolls t groups members) (group : String) :
    Enrolled.part group (groups.flatMap members) =
      if group.isEmpty then groups.flatMap members else members group := by
  rw [Enrolled.part, h.filter_roll]

/-- The groups are listed with the numbers of their counters in the roll. -/
theorem mem_sizes_iff (h : Enrolls t groups members) (group : String) (count : Nat) :
    (⟨group, count⟩ : GroupSize) ∈ groups.map (fun group => ⟨group, (members group).length⟩) ↔
      0 < count ∧ count = (groups.flatMap members).countP fun x => x.group = group := by
  rw [List.countP_eq_length_filter, h.filter_roll]
  constructor
  · intro hmem
    obtain ⟨group', hgroup', heq⟩ := List.mem_map.1 hmem
    obtain ⟨rfl, rfl⟩ := GroupSize.mk.inj heq
    exact ⟨List.length_pos_iff.2 ((h.mem_iff group').1 hgroup'), rfl⟩
  · rintro ⟨hpos, rfl⟩
    have hgroup : group ∈ groups := (h.mem_iff group).2 (List.length_pos_iff.1 hpos)
    exact List.mem_map.2 ⟨group, hgroup, rfl⟩

end Enrolls

end Index

namespace Catalog

variable {c : Catalog} {t : Transaction}

/-- The deleted counters are counted, each once. -/
theorem exists_tombstones (h : t.trees.Shows c.ledger) :
    ∃ deleted : List (String × String), deleted.Nodup ∧
      (∀ group name, (group, name) ∈ deleted ↔
        ∃ id, Index.deletedId? t group name = .ok (some id)) ∧
      Index.tombstonesCount t = .ok deleted.length := by
  obtain ⟨rows, hpairs, hsorted, hmem⟩ := Transaction.pairsFrom_of_shows h .deleted
  have hrow : ∀ group name id, (group, (name, id)) ∈ rows ↔
      c.deletedId? group name = some id := by
    intro group name id
    rw [deletedId?_eq_some_iff]
    exact hmem group (name, id)
  refine ⟨rows.map fun row => (row.1, row.2.1), ?_, fun group name => ?_, ?_⟩
  · rw [List.Nodup, List.pairwise_map]
    refine hsorted.imp_of_mem ?_
    rintro ⟨group, name, id⟩ ⟨group', name', id'⟩ hx hy hlt heq
    obtain ⟨rfl, rfl⟩ := Prod.mk.inj heq
    obtain rfl : id = id' := Option.some.inj (((hrow _ _ _).1 hx).symm.trans ((hrow _ _ _).1 hy))
    rcases hlt with hlt | ⟨_, hlt⟩
    · simp at hlt
    · simp at hlt
  · rw [index_deletedId? h, List.mem_map]
    constructor
    · rintro ⟨⟨group', name', id⟩, hx, heq⟩
      obtain ⟨rfl, rfl⟩ := Prod.mk.inj heq
      exact ⟨id, congrArg Except.ok ((hrow _ _ _).1 hx)⟩
    · rintro ⟨id, hid⟩
      exact ⟨(group, name, id), (hrow _ _ _).2 (Except.ok.inj hid), rfl⟩
  · rw [List.length_map]
    have hcount := Index.memberCount_of_pairsFrom hpairs
    rwa [List.length_map] at hcount

/-- Trees that present a catalog have a roll, and list exactly what stands in it. -/
theorem exists_roll (h : t.trees.Shows c.ledger) :
    ∃ roll, Index.Roll t roll ∧ Index.Lists t roll := by
  obtain ⟨groups, members, henrolls⟩ := exists_enrolls h
  have hpage : ∀ group skip take, Index.summary t group skip take =
      .ok ((((Enrolled.part group (groups.flatMap members)).drop skip).take take).map
        Enrolled.summary) := by
    intro group skip take
    rw [henrolls.summary_eq, henrolls.part_roll]
  refine ⟨_, henrolls.roll, ?_⟩
  constructor
  case once => exact henrolls.roll.once
  case page => exact hpage
  case pages =>
    intro group sizes hlength
    rw [Index.pages_of_page (hpage group), List.drop_zero, List.take_of_length_le hlength]
  case groups =>
    refine ⟨_, henrolls.groups_eq, ?_, henrolls.mem_sizes_iff, ?_, ?_⟩
    · rw [List.pairwise_map]
      exact henrolls.sorted
    · rw [List.length_map]
      exact henrolls.size
    · rw [List.map_map, List.length_flatMap]
      rfl
  case countersCount => exact henrolls.countersCount_eq
  case tombstonesCount => exact exists_tombstones h

end Catalog

namespace Stage

/-- In every state of a run, for readers and in an open writer: all live counters stand in one roll,
and every page, the list of the groups and the counts are as it says. -/
theorem Reachable.lists_exactly {stage : Stage} (h : stage.Reachable) {t : Transaction}
    {lastEtag : Etag} (hhas : stage.Has t.trees lastEtag) :
    ∃ roll, Index.Roll t roll ∧ Index.Lists t roll := by
  obtain ⟨_, _, hpresents⟩ := h.presents
  obtain ⟨c, _, _, hshows, _⟩ := hpresents.has hhas
  exact Catalog.exists_roll hshows

/-- Two groups with counters, and between them one whose counters were all deleted. -/
theorem lists_exactly_of_emptied_group : ∃ engine s roll,
    afterCalls plainOpening [.store "c" "x" 1, .store "a" "x" 2, .store "b" "x" 3, .delete "b" "x",
      .store "a" "w" (-4)] = .ok (.writing engine s) ∧
    Index.Roll s.writer.transaction roll ∧ Index.Lists s.writer.transaction roll ∧
    roll.length = 3 ∧
    roll.map Enrolled.summary = [⟨"a", "w", -4⟩, ⟨"a", "x", 2⟩, ⟨"c", "x", 1⟩] := by
  obtain ⟨engine, s, hcalls, hreachable, hcount, hpage⟩ := exists_afterCalls_of_finds
    plainOpening rfl (by decide) (by decide)
    [.store "c" "x" 1, .store "a" "x" 2, .store "b" "x" 3, .delete "b" "x", .store "a" "w" (-4)]
    (by decide)
    (fun _ s => Index.countersCount s.writer.transaction = .ok 3 ∧
      Index.summary s.writer.transaction "" 0 3 =
        .ok [⟨"a", "w", -4⟩, ⟨"a", "x", 2⟩, ⟨"c", "x", 1⟩]) (by decide +kernel)
  obtain ⟨roll, hroll, hlists⟩ := hreachable.lists_exactly (t := s.writer.transaction) .writer
  have hlength : roll.length = 3 := Except.ok.inj (hlists.countersCount.symm.trans hcount)
  refine ⟨engine, s, roll, hcalls, hroll, hlists, hlength, ?_⟩
  have hpart : Enrolled.part "" roll = roll := rfl
  rwa [hlists.page, hpart, List.drop_zero, List.take_of_length_le hlength.le,
    Except.ok.injEq] at hpage

end Stage

end CounterMesh
