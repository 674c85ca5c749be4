import CounterMesh.Proofs.Counter.Keys
import CounterMesh.Proofs.Engine.Scans
import CounterMesh.Store.Index
import Mathlib.Order.Bounds.Defs

/-!
# Look-ups by name

In a group a counter is listed as its name followed by its id, and it is found
from its name. A longer name may go on with bytes that also are the bytes of an
id, so that its entries stand between, or in front of, those of the name itself.
The look-up passes over them: whatever else is listed, it finds the least of the
ids that are listed under this very name.
-/

namespace CounterMesh

namespace Enumerates

variable {list : List Bytes} {member : Bytes → Prop}

/-- No entry is read as one of a name exactly if the name is listed with no id. -/
theorem findSome?_eq_none_iff (h : Enumerates compare list member) (name : Bytes) :
    list.findSome? (GroupEntry.idFor? name) = none ↔
      ∀ counterId, ¬ member (name ++ Word.big counterId) := by
  rw [List.findSome?_eq_none_iff]
  constructor
  · intro hnone counterId hmember
    have hread := hnone _ ((h.mem_iff _).2 hmember)
    rw [GroupEntry.idFor?_iff_eq_append.2 rfl] at hread
    cases hread
  · intro hnone entry hmem
    by_contra hread
    obtain ⟨counterId, hid⟩ := Option.ne_none_iff_exists'.1 hread
    rw [GroupEntry.idFor?_iff_eq_append.1 hid] at hmem
    exact hnone counterId ((h.mem_iff _).1 hmem)

/-- The first entry that is read as one of a name has the least id of the name. -/
theorem isLeast_of_findSome? (h : Enumerates compare list member) {name : Bytes}
    {counterId : CounterId}
    (hfound : list.findSome? (GroupEntry.idFor? name) = some counterId) :
    IsLeast {id | member (name ++ Word.big id)} counterId := by
  obtain ⟨before, entry, after, rfl, hid, hbefore⟩ := List.findSome?_eq_some_iff.1 hfound
  obtain rfl := GroupEntry.idFor?_iff_eq_append.1 hid
  refine ⟨(h.mem_iff _).1 (by simp), fun id hmember => ?_⟩
  have hmem := (h.mem_iff _).2 hmember
  rw [List.mem_append, List.mem_cons] at hmem
  rcases hmem with hmem | hentry | hmem
  · -- An entry in front of the first one that is read would itself be read.
    have hread := hbefore _ hmem
    rw [GroupEntry.idFor?_iff_eq_append.2 rfl] at hread
    cases hread
  · rw [Word.big_injective (List.append_cancel_left hentry)]
    exact UInt64.le_refl _
  · have hsorted := (List.pairwise_append.1 h.sorted).2.1
    have hlt := (List.pairwise_cons.1 hsorted).1 _ hmem
    rw [GroupEntry.compare_append_big] at hlt
    exact UInt64.le_of_lt (Std.compare_eq_lt.1 hlt)

theorem findSome?_eq_some_iff_isLeast (h : Enumerates compare list member) (name : Bytes)
    (counterId : CounterId) :
    list.findSome? (GroupEntry.idFor? name) = some counterId ↔
      IsLeast {id | member (name ++ Word.big id)} counterId := by
  refine ⟨h.isLeast_of_findSome?, fun hleast => ?_⟩
  cases hfound : list.findSome? (GroupEntry.idFor? name) with
  | none => exact absurd hleast.1 ((h.findSome?_eq_none_iff name).1 hfound counterId)
  | some id =>
      have hid := h.isLeast_of_findSome? hfound
      rw [UInt64.le_antisymm (hid.2 hleast.1) (hleast.2 hid.1)]

end Enumerates

/-- The ids under which a group lists a name. -/
def MultiTree.idsOf (entries : MultiTree) (group name : Bytes) : Set CounterId :=
  {id | entries.holds group (name ++ Word.big id) = true}

namespace Index

variable {t : Transaction} {tree : String} {entries : MultiTree}

/-- What is found in a group is the least id of the name, if it has any. -/
theorem exists_find? (h : t.multi tree = .ok entries) (group name : String) :
    ∃ found, find? t tree group name = .ok found ∧
      (found = none ↔ entries.idsOf (Bytes.ofText group) (Bytes.ofText name) = ∅) ∧
      ∀ id, found = some id ↔
        IsLeast (entries.idsOf (Bytes.ofText group) (Bytes.ofText name)) id := by
  obtain ⟨values, hvalues, henumerates⟩ :=
    t.filters.valuesStarting h (Bytes.ofText group) (Bytes.ofText name)
  have hids : {id | entries.holds (Bytes.ofText group) (Bytes.ofText name ++ Word.big id) = true ∧
      Bytes.ofText name <+: Bytes.ofText name ++ Word.big id} =
      entries.idsOf (Bytes.ofText group) (Bytes.ofText name) :=
    Set.ext fun _ => and_iff_left (List.prefix_append _ _)
  refine ⟨_, by rw [find?, hvalues]; rfl, ?_, fun id => ?_⟩
  · rw [henumerates.findSome?_eq_none_iff, ← hids, Set.eq_empty_iff_forall_notMem]
    rfl
  · rw [henumerates.findSome?_eq_some_iff_isLeast, hids]

/-- Look-ups by name are exact. An entry is read as one of a name exactly if it is the name followed
by the form of an id, and names and ids are read back from what is built of them in any buffer. So,
whatever a tree contains, a look-up in a group finds nothing exactly if the group lists the name
with no id, and otherwise the least of its ids. -/
theorem find?_exact (h : t.multi tree = .ok entries) (group name : String) :
    (∀ (name entry : Bytes) (id : CounterId),
      GroupEntry.idFor? name entry = some id ↔ entry = name ++ Word.big id) ∧
    (∀ (tree : String) (buffer : KeyBuffer),
      Inverts (fun _ => True) (fun entry => 8 ≤ entry.length)
        (fun row => (buffer.groupEntry row.1 row.2).bytes) (GroupEntry.split tree) ∧
      Inverts (fun _ => True) (fun key => 8 ≤ key.length)
        (fun row => (buffer.nameKey row.1 row.2).bytes) (NameKey.split tree)) ∧
    ∃ found, find? t tree group name = .ok found ∧
      (found = none ↔ entries.idsOf (Bytes.ofText group) (Bytes.ofText name) = ∅) ∧
      ∀ id, found = some id ↔
        IsLeast (entries.idsOf (Bytes.ofText group) (Bytes.ofText name)) id :=
  ⟨fun _ _ _ => GroupEntry.idFor?_iff_eq_append,
    fun tree buffer => ⟨GroupEntry.split_inverts tree buffer, NameKey.split_inverts tree buffer⟩,
    exists_find? h group name⟩

/-- A longer name goes on with zeros and sorts in front of the name that is looked up, and so does
an entry that is too short; one that is no text sorts behind it. None of them is taken for the
name, which is listed with two ids. -/
theorem find?_exact_of_longer_name : ∃ (t : Transaction) (entries : MultiTree),
    t.multi "groups" = .ok entries ∧
    t.valuesStarting "groups" [0x67] [0x61] = .ok
      [[0x61], [0x61, 0, 0, 0, 0, 0, 0, 0, 0, 5], [0x61, 0, 0, 0, 0, 0, 0, 0, 7],
        [0x61, 0, 0, 0, 0, 0, 0, 0, 9], [0x61, 0xff, 0, 0, 0, 0, 0, 0, 0, 1]] ∧
    find? t "groups" "g" "a" = .ok (some 7) ∧ find? t "groups" "g" "" = .ok none ∧
    IsLeast (entries.idsOf (Bytes.ofText "g") (Bytes.ofText "a")) 7 ∧
    entries.idsOf (Bytes.ofText "g") (Bytes.ofText "") = ∅ := by
  let entries : MultiTree := .ofList [([0x67], .ofList
    [([0x61], ()), ([0x61, 0, 0, 0, 0, 0, 0, 0, 9], ()), ([0x61, 0, 0, 0, 0, 0, 0, 0, 7], ()),
      ([0x61, 0xff, 0, 0, 0, 0, 0, 0, 0, 1], ()), ([0x61, 0, 0, 0, 0, 0, 0, 0, 0, 5], ())])]
  let t : Transaction := ⟨.read, .ofList [("groups", .multi entries)]⟩
  have hmulti : t.multi "groups" = .ok entries := eq_ok_of_toOption (by decide +kernel)
  have hvalues : t.valuesStarting "groups" [0x67] [0x61] = .ok
      [[0x61], [0x61, 0, 0, 0, 0, 0, 0, 0, 0, 5], [0x61, 0, 0, 0, 0, 0, 0, 0, 7],
        [0x61, 0, 0, 0, 0, 0, 0, 0, 9], [0x61, 0xff, 0, 0, 0, 0, 0, 0, 0, 1]] :=
    eq_ok_of_toOption (by decide +kernel)
  have hlisted : find? t "groups" "g" "a" = .ok (some 7) :=
    eq_ok_of_toOption (by decide +kernel)
  have hunlisted : find? t "groups" "g" "" = .ok none :=
    eq_ok_of_toOption (by decide +kernel)
  obtain ⟨-, -, found, hfound, -, hleast⟩ := find?_exact hmulti "g" "a"
  obtain ⟨-, -, missing, hmissing, hnone, -⟩ := find?_exact hmulti "g" ""
  rw [hlisted, Except.ok.injEq] at hfound
  rw [hunlisted, Except.ok.injEq] at hmissing
  exact ⟨t, entries, hmulti, hvalues, hlisted, hunlisted, (hleast 7).1 hfound.symm,
    hnone.1 hmissing.symm⟩

end Index

end CounterMesh
