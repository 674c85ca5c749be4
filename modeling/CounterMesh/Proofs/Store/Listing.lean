import CounterMesh.Proofs.OrdMap.Relisted
import CounterMesh.Proofs.Store.Reading

/-!
# Listings

The live counters are listed in one multi tree: its keys are the groups, and under
each group stand the names of its counters with their ids. A page of all groups is
a part of the members of the groups, one group after another. The groups in front
of a page are passed over by their counts, which changes nothing about the page.
-/

namespace CounterMesh

/-- A live counter as it is listed. -/
structure Enrolled where
  group : String
  name : String
  id : CounterId
  total : Int64

namespace Enrolled

/-- The entry of the counter in its group. -/
def entry (x : Enrolled) : Bytes := GroupEntry.bytes (Bytes.ofText x.name) x.id

/-- What a page tells of the counter. -/
def summary (x : Enrolled) : Summary := ⟨x.group, x.name, x.total⟩

/-- The order of listings: by group, and inside a group by entry. -/
def Before (x y : Enrolled) : Prop :=
  compare (Bytes.ofText x.group) (Bytes.ofText y.group) = .lt ∨
    x.group = y.group ∧ compare x.entry y.entry = .lt

end Enrolled

namespace Index

variable {t : Transaction} {name : String} {tree : MultiTree}

theorem valueCount_of_mem (h : t.multi name = .ok tree) {entry : Bytes × OrdSet Bytes}
    (hentry : entry ∈ tree.toList) : t.valueCount name entry.1 = .ok entry.2.size := by
  have hvalues : MultiTree.valuesOf tree entry.1 = entry.2 := by
    rw [MultiTree.valuesOf, OrdMap.get?_eq_some_iff.2 hentry]
    rfl
  rw [Transaction.valueCount, h, ← hvalues]
  rfl

theorem countUnder_keys (h : t.multi name = .ok tree) (entries : List (Bytes × OrdSet Bytes))
    (hentries : ∀ entry ∈ entries, entry ∈ tree.toList) :
    countUnder t name (entries.map (·.1)) = .ok (MultiTree.pairs entries).length := by
  induction entries with
  | nil => rfl
  | cons entry rest ih =>
      obtain ⟨hentry, hrest⟩ := List.forall_mem_cons.1 hentries
      have hlength : (MultiTree.pairs (entry :: rest)).length =
          entry.2.size + (MultiTree.pairs rest).length := by
        simp [MultiTree.pairs, OrdMap.keys, OrdMap.size]
      rw [List.map_cons, countUnder, valueCount_of_mem h hentry, ih hrest, hlength]
      rfl

/-- The count of a multi tree is the number of its pairs. -/
theorem memberCount_of_pairsFrom {rows : List (Bytes × Bytes)}
    (h : t.pairsFrom name [] = .ok rows) : memberCount t name = .ok rows.length := by
  rw [Transaction.pairsFrom] at h
  cases hmulti : t.multi name with
  | error e =>
      rw [hmulti] at h
      cases h
  | ok tree =>
      rw [hmulti] at h
      cases h
      rw [memberCount, Transaction.keysFrom, hmulti]
      exact countUnder_keys hmulti _ fun entry hentry =>
        (List.dropWhile_sublist _).mem hentry

/-- These are the live counters of a group, in the order of their entries. -/
structure Members (t : Transaction) (group : String) (members : List Enrolled) : Prop where
  sorted : members.Pairwise fun x y => compare x.entry y.entry = .lt
  group_eq : ∀ x ∈ members, x.group = group
  live_iff : ∀ name id,
    liveId? t group name = .ok (some id) ↔ ∃ total, ⟨group, name, id, total⟩ ∈ members
  total : ∀ x ∈ members, totalOf t group x.name = .ok x.total
  count : t.valueCount Layout.groupCounters (Bytes.ofText group) = .ok members.length
  page : ∀ skip take, groupPage t (Bytes.ofText group) skip take =
    .ok (((members.drop skip).take take).map Enrolled.summary)

/-- The live counters are listed in these groups, with these members in each; the other groups
have none. -/
structure Enrolls (t : Transaction) (groups : List String) (members : String → List Enrolled) :
    Prop where
  sorted : groups.Pairwise fun g g' => compare (Bytes.ofText g) (Bytes.ofText g') = .lt
  mem_iff : ∀ group, group ∈ groups ↔ members group ≠ []
  keys : t.keysFrom Layout.groupCounters [] = .ok (groups.map Bytes.ofText)
  size : t.entryCount Layout.groupCounters = .ok groups.length
  members : ∀ group, Members t group (members group)

theorem Members.ne_nil_iff {group : String} {members : List Enrolled}
    (h : Members t group members) :
    members ≠ [] ↔ ∃ name id, liveId? t group name = .ok (some id) := by
  constructor
  · intro hne
    obtain ⟨⟨group', name, id, total⟩, hx⟩ := List.exists_mem_of_ne_nil members hne
    obtain rfl : group' = group := h.group_eq _ hx
    exact ⟨name, id, (h.live_iff name id).2 ⟨total, hx⟩⟩
  · rintro ⟨name, id, hlive⟩
    obtain ⟨total, hx⟩ := (h.live_iff name id).1 hlive
    exact List.ne_nil_of_mem hx

namespace Enrolls

variable {groups : List String} {members : String → List Enrolled}

theorem groups_eq (h : Enrolls t groups members) :
    Index.groups t = .ok (groups.map fun group => ⟨group, (members group).length⟩) := by
  rw [Index.groups, h.keys]
  simp only [bind, Except.bind]
  rw [List.mapM_map]
  refine mapM_eq_pure fun group _ => ?_
  rw [Function.comp_apply, (h.members group).count, Stored.text_ofText]

/-- The groups are counted together. -/
theorem countersCount_eq (h : Enrolls t groups members) :
    countersCount t = .ok (groups.flatMap members).length := by
  have hunder : ∀ list : List String, countUnder t Layout.groupCounters (list.map Bytes.ofText) =
      .ok (list.flatMap members).length := by
    intro list
    induction list with
    | nil => rfl
    | cons group rest ih =>
        rw [List.map_cons, countUnder, (h.members group).count, ih, List.flatMap_cons,
          List.length_append]
        rfl
  rw [countersCount, memberCount, h.keys]
  exact hunder groups

/-- A page of several groups is a part of their members, one group after another. -/
theorem groupsPage_eq (h : Enrolls t groups members) (list : List String) (skip take : Nat) :
    groupsPage t (list.map Bytes.ofText) skip take =
      .ok ((((list.flatMap members).drop skip).take take).map Enrolled.summary) := by
  induction list generalizing skip take with
  | nil => simp [groupsPage, pure, Except.pure]
  | cons group rest ih =>
      have hdrop : ((group :: rest).flatMap members).drop skip =
          (members group).drop skip ++
            (rest.flatMap members).drop (skip - (members group).length) := by
        rw [List.flatMap_cons, List.drop_append]
      rw [List.map_cons, groupsPage, (h.members group).count, hdrop]
      simp only [bind, Except.bind]
      by_cases hskip : (members group).length ≤ skip
      · rw [if_pos hskip, List.drop_eq_nil_of_le hskip, List.nil_append]
        exact ih _ _
      · -- The page begins in this group, so nothing is skipped behind it.
        have hrest : skip - (members group).length = 0 := by omega
        rw [if_neg hskip, (h.members group).page, hrest, List.drop_zero, List.take_append]
        dsimp only
        rw [List.length_map]
        by_cases htake : take ≤ (((members group).drop skip).take take).length
        · have hfull : take - ((members group).drop skip).length = 0 := by
            rw [List.length_take] at htake
            omega
          rw [if_pos htake, hfull, List.take_zero, List.append_nil]
          rfl
        · have hall : (((members group).drop skip).take take).length =
              ((members group).drop skip).length := by
            rw [List.length_take] at htake ⊢
            omega
          rw [if_neg htake, hall, List.map_append]
          simp only [ih, List.drop_zero]
          rfl

/-- A page of one group, or of all groups, is a part of the members. -/
theorem summary_eq (h : Enrolls t groups members) (group : String) (skip take : Nat) :
    summary t group skip take =
      .ok ((((if group.isEmpty then groups.flatMap members else members group).drop skip).take
        take).map Enrolled.summary) := by
  rw [summary]
  by_cases htake : take = 0
  · rw [if_pos htake, htake, List.take_zero]
    rfl
  · rw [if_neg htake]
    by_cases hgroup : group.isEmpty = true
    · rw [if_pos hgroup, if_pos hgroup, h.keys]
      exact h.groupsPage_eq groups skip take
    · rw [if_neg hgroup, if_neg hgroup]
      exact (h.members group).page skip take

end Enrolls

/-- The entries of a group are read one after another, each with the total of its counter. -/
theorem groupPage_of_rows {group : String} {rows : List (String × CounterId)}
    {value : String × CounterId → Int64}
    (hvalues : t.valuesStarting Layout.groupCounters (Bytes.ofText group) [] =
      .ok (rows.map Code.groupEntry.bytes))
    (htotal : ∀ row ∈ rows, total t row.2 = .ok (value row)) (skip take : Nat) :
    groupPage t (Bytes.ofText group) skip take =
      .ok (((rows.map fun row => ⟨group, row.1, value row⟩).drop skip).take take) := by
  rw [groupPage, Stored.text_ofText, hvalues, ← List.map_drop, ← List.map_take]
  simp only [bind, Except.bind]
  rw [← List.map_drop, ← List.map_take, List.mapM_map]
  refine mapM_eq_pure fun row hrow => ?_
  have hbytes : Code.groupEntry.bytes row = GroupEntry.bytes (Bytes.ofText row.1) row.2 := rfl
  have hmem : row ∈ rows := List.mem_of_mem_drop (List.mem_of_mem_take hrow)
  rw [Function.comp_apply, hbytes, GroupEntry.split_bytes]
  simp only [Stored.text_ofText, htotal row hmem]

end Index

namespace Catalog

variable {c : Catalog} {t : Transaction}

/-- The members of a group are listed and counted. -/
theorem exists_members (h : t.trees.Shows c.ledger) (group : String) :
    ∃ members, Index.Members t group members := by
  obtain ⟨rows, hvalues, hcount, hmem⟩ := Transaction.valueCount_of_shows h .live group
  have hrow : ∀ name id, (name, id) ∈ rows ↔ c.liveId? group name = some id := by
    intro name id
    rw [liveId?_eq_some_iff]
    exact hmem (name, id)
  have hlive : ∀ name id,
      Index.liveId? t group name = .ok (some id) ↔ (name, id) ∈ rows := by
    intro name id
    rw [index_liveId? h, Except.ok.injEq, hrow]
  have htotals : ∀ row ∈ rows, ∃ total, Index.total t row.2 = .ok total := by
    intro row hrow
    obtain ⟨_, _, htotal⟩ := index_total h ((hmem row).1 hrow).1
    exact ⟨_, htotal⟩
  choose! value hvalue using htotals
  refine ⟨rows.map fun row => ⟨group, row.1, row.2, value row⟩, ?_⟩
  constructor
  case sorted =>
    have hsorted := Transaction.sorted_valuesStarting hvalues
    rw [List.pairwise_map] at hsorted ⊢
    exact hsorted
  case group_eq =>
    intro x hx
    obtain ⟨row, _, rfl⟩ := List.mem_map.1 hx
    rfl
  case live_iff =>
    intro name id
    rw [hlive]
    simp
  case total =>
    intro x hx
    obtain ⟨row, hrow, rfl⟩ := List.mem_map.1 hx
    rw [index_totalOf_of_liveId? ((hlive row.1 row.2).2 hrow), hvalue row hrow]
  case count =>
    rw [List.length_map]
    exact hcount
  case page =>
    intro skip take
    rw [Index.groupPage_of_rows hvalues hvalue]
    simp only [← List.map_drop, ← List.map_take, List.map_map]
    rfl

/-- Trees that present a catalog list its live counters. -/
theorem exists_enrolls (h : t.trees.Shows c.ledger) :
    ∃ groups members, Index.Enrolls t groups members := by
  obtain ⟨groups, hkeys, hsize, hmem⟩ := Transaction.keysFrom_of_shows h .live
  choose members hmembers using exists_members h
  have hsorted := Transaction.sorted_keysFrom hkeys
  rw [List.pairwise_map] at hsorted
  refine ⟨groups, members, hsorted, fun group => ?_, hkeys, hsize, hmembers⟩
  rw [hmem, (hmembers group).ne_nil_iff, Prod.exists]
  refine exists₂_congr fun name id => ?_
  rw [index_liveId? h, Except.ok.injEq, liveId?_eq_some_iff]
  exact multi_ledger_live c

end Catalog

end CounterMesh
