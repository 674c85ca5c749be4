import CounterMesh.Proofs.Replication.Agreement
import CounterMesh.Proofs.Replication.Network

/-!
# Convergence of a mesh

A mesh is quiet when no exchange would apply anything. Its nodes then agree on
the slots of all others, as long as no exchange is cut short with something left
to apply. They need not agree on a slot with its owner: an owner never takes its
own slot back, and an old value of it that was relayed late stays where it is.
So a quiet mesh has converged exactly when every value of an owner is held by
some other node.
-/

namespace CounterMesh

namespace Mesh

variable {ι : Type}

/-- No writer does anything but local stores. -/
def Event.isStore : Event ι → Bool
  | write _ calls _ => calls.all Call.isStore
  | _ => true

/-- The stores of a mesh carry catalogs without deleted counters that are consistent with each
other. -/
structure Presents (mesh : Mesh ι) (ids : ι → ServerId) (cats : ι → Catalog) : Prop
    extends mesh.Carries ids cats where
  undeleted : ∀ i, (cats i).Undeleted
  consistent : Catalog.Consistent ids cats

namespace Presents

variable [DecidableEq ι] {mesh : Mesh ι} {ids : ι → ServerId} {cats : ι → Catalog}

theorem update (h : mesh.Presents ids cats) {i : ι} {store : Store} {c : Catalog}
    (hholds : store.Holds (ids i) c) (hn : c.AllNamed) (hu : c.Undeleted)
    (hconsistent : Catalog.Consistent ids (Function.update cats i c)) :
    Presents (Function.update mesh i store) ids (Function.update cats i c) where
  toCarries := h.toCarries.update hholds hn
  undeleted := by
    intro j
    by_cases hj : j = i
    · subst hj
      rwa [Function.update_self]
    · rw [Function.update_of_ne hj]
      exact h.undeleted j
  consistent := hconsistent

/-- No event with local stores breaks the consistency of the mesh. -/
theorem next (h : mesh.Presents ids cats) {event : Event ι} (hstores : event.isStore = true)
    (hroom : mesh.HasRoom event) : ∃ cats', Presents (mesh.next event) ids cats' := by
  cases event with
  | write node calls notify =>
      have hnode := h.holds node
      have hroom' := hnode.hasRoom_iff.1 hroom
      obtain ⟨c, hholds, hputs⟩ := hnode.write (h.named node)
        (fun call hcall => Call.isLocal_of_isStore (List.all_eq_true.1 hstores call hcall)) hroom'
        notify
      have hrenews := hputs.renews (h.sound node) hroom'
      have hown : ∀ k, Call.Touched (ids node) calls k → k.serverId = ids node :=
        fun k => Call.owner_of_isStore hstores
      refine ⟨_, h.update hholds (hrenews.allNamed (h.named node) fun _ _ => And.left) ?_ ?_⟩
      · exact hrenews.undeleted hholds.keeps.sound (h.undeleted node)
          fun k _ hk => hown k hk ▸ h.ids_ne_nil node
      · exact h.consistent.write
          ((hrenews.advances (h.undeleted node)).mono fun k _ => hown k) hputs.cursors_eq
  | exchange source target =>
      obtain ⟨feed, _, hpulls, hreturns⟩ := h.returns_exchange (.inr (h.undeleted source)) hroom
      obtain ⟨_, count, _, hholds⟩ := Store.after_of_returns hreturns
      have hrenews := (hpulls count).renews
      have hsource : ∀ k value, Catalog.Imports (ids target) (cats source) k value →
          ∃ cell, (cats source).slot k = some cell := by
        rintro k value ⟨_, hvalue⟩
        obtain ⟨cell, hk, _⟩ := Option.map_eq_some_iff.1 hvalue
        exact ⟨cell, hk⟩
      refine ⟨_, h.update hholds ?_ ?_ (h.consistent.pull h.distinct (hpulls count)
        (h.sound source) h.undeleted)⟩
      · refine hrenews.allNamed (h.named target) fun k value himports => ?_
        obtain ⟨cell, hk⟩ := hsource k value himports
        exact h.named source k cell hk
      · refine hrenews.undeleted hholds.keeps.sound (h.undeleted target) fun k value himports => ?_
        obtain ⟨cell, hk⟩ := hsource k value himports
        exact (h.undeleted source).slot_nil (h.sound source) hk
  | outside node clock signal =>
      refine ⟨_, h.update ((h.holds node).outside clock signal) (h.named node) (h.undeleted node)
        ?_⟩
      rw [Function.update_eq_self]
      exact h.consistent

end Presents

/-- Local stores and exchanges in any order lead to nodes that are consistent with each other. -/
theorem Reachable.presents [DecidableEq ι] {mesh : Mesh ι}
    (h : Reachable (fun event => event.isStore = true) mesh) :
    ∃ ids cats, mesh.Presents ids cats := by
  induction h with
  | @start opening mesh h hfresh hdistinct =>
      refine ⟨_, _, .start h hfresh hdistinct, ?_, ?_⟩
      · intro i id hid
        cases hid
      · exact .of_empty (fun _ _ => rfl) fun _ _ => rfl
  | next h event hallowed hroom ih =>
      obtain ⟨ids, cats, hpresents⟩ := ih
      obtain ⟨cats', hpresents'⟩ := hpresents.next hallowed hroom
      exact ⟨ids, cats', hpresents'⟩

/-- Readers of all nodes are told the same slots and the same total of every counter. -/
def Converged (mesh : Mesh ι) : Prop :=
  ∀ i j group name,
    Index.slotsOf (mesh i).engine.snapshot group name =
      Index.slotsOf (mesh j).engine.snapshot group name ∧
    Index.totalOf (mesh i).engine.snapshot group name =
      Index.totalOf (mesh j).engine.snapshot group name

/-- Every value that a node holds in a slot of its own is held by another node as well. -/
def OwnersHeld (mesh : Mesh ι) : Prop :=
  ∀ owner i, i ≠ owner → ∀ k value, k.serverId = mesh.ids owner →
    mesh.valueOf? owner k = .ok (some value) →
      ∃ j, j ≠ owner ∧ mesh.valueOf? j k = .ok (some value)

namespace Presents

variable {mesh : Mesh ι} {ids : ι → ServerId} {cats : ι → Catalog}

theorem converged_iff (h : mesh.Presents ids cats) :
    mesh.Converged ↔ ∀ i j, (cats i).SameValues (cats j) := by
  refine forall_congr' fun i => forall_congr' fun j => ?_
  have hi : (mesh i).engine.snapshot.trees.Shows (cats i).ledger := (h.holds i).keeps.shows
  have hj : (mesh j).engine.snapshot.trees.Shows (cats j).ledger := (h.holds j).keeps.shows
  exact (Catalog.sameValues_iff_readings hi hj (h.holds i).keeps.sound (h.holds j).keeps.sound
    (h.undeleted i) (h.undeleted j)).symm

theorem ownersHeld_iff (h : mesh.Presents ids cats) :
    mesh.OwnersHeld ↔ ∀ o i, i ≠ o → ∀ k value, k.serverId = ids o →
      ((cats o).slot k).map Cell.value = some value →
        ∃ j, j ≠ o ∧ ((cats j).slot k).map Cell.value = some value := by
  simp only [OwnersHeld, h.ids_eq, h.valueOf?_eq, Except.ok.injEq]

end Presents

variable [DecidableEq ι]

section Exchanges

variable (mesh : Mesh ι) (source target : ι)

/-- The entries that an exchange would leave are in place, or belong to the target. -/
def UpToDate : Prop :=
  ∃ entries, mesh.left source target = .ok entries ∧ ∀ e ∈ entries,
    e.serverId = mesh.ids target ∨ mesh.valueOf? target e.slotName = .ok (some e.value)

end Exchanges

/-- No exchange between two nodes would apply anything. -/
def Quiet (mesh : Mesh ι) : Prop :=
  ∀ source target, source ≠ target →
    mesh.HasRoom (.exchange source target) ∧ mesh.applied source target = some 0

namespace Presents

variable {mesh : Mesh ι} {ids : ι → ServerId} {cats : ι → Catalog}

/-- An exchange that applies nothing leaves the slots as they are and moves the cursor past
entries that are in place. -/
theorem left_of_quiet (h : mesh.Presents ids cats) {source target : ι}
    (hroom : mesh.HasRoom (.exchange source target))
    (hquiet : mesh.applied source target = some 0) :
    ∃ feed since, (cats source).Feed feed ∧ mesh.left source target = .ok (feedAfter feed since) ∧
      (cats target).cursorFor (ids source) ≤ since ∧
      ∀ k cell, (cats source).slot k = some cell → cell.etag ≤ since →
        cell.etag ≤ (cats target).cursorFor (ids source) ∨
          Catalog.Taken (ids target) (cats target) k cell.value := by
  obtain ⟨feed, hfeed, hpulls, applied, target', hrun, count, happlied, htarget⟩ :=
    h.returns_exchange (.inr (h.undeleted source)) hroom
  rw [Mesh.applied, hrun, Option.some.injEq] at hquiet
  have hzero : (cats target).pulled (ids target) (ids source) feed count = 0 :=
    happlied.symm.trans hquiet
  have hslot : ((cats target).pull (ids target) (ids source) feed count).slot =
      (cats target).slot := by
    rw [Catalog.pull_of_pulled_eq_zero hzero]
    rfl
  have hafter : (mesh target).after (mesh.exchange source target) = target' := by
    exact leaving_of_ok hrun
  refine ⟨feed, _, hfeed, h.toCarries.left_eq hfeed (hafter ▸ htarget), (hpulls count).cursor_le,
    fun k cell hk hle => ?_⟩
  by_cases hold : cell.etag ≤ (cats target).cursorFor (ids source)
  · exact .inl hold
  · have htaken := (hpulls count).taken (h.sound source) (h.undeleted source)
      ⟨hk, UInt64.not_le.1 hold, hle⟩
    rw [hslot] at htaken
    exact .inr htaken

/-- A node is up to date with another one exactly when it has caught up with its catalog. -/
theorem upToDate_iff (h : mesh.Presents ids cats) {source target : ι}
    (hroom : mesh.HasRoom (.exchange source target))
    (hquiet : mesh.applied source target = some 0) :
    mesh.UpToDate source target ↔ Catalog.CaughtUp ids cats source target := by
  obtain ⟨feed, since, hfeed, hleft, hcursor, hpassed⟩ := h.left_of_quiet hroom hquiet
  have htaken : ∀ e : FeedEntry, (e.serverId = mesh.ids target ∨
      mesh.valueOf? target e.slotName = .ok (some e.value)) ↔
        Catalog.Taken (ids target) (cats target) e.slotName e.value := by
    intro e
    rw [h.ids_eq, h.valueOf?_eq, Except.ok.injEq]
    rfl
  constructor
  · rintro ⟨entries, hentries, hplace⟩ k cell hk
    obtain rfl := Except.ok.inj (hleft.symm.trans hentries)
    by_cases hle : cell.etag ≤ since
    · exact hpassed k cell hk hle
    · have hmem : .about k cell ∈ feedAfter feed since :=
        List.mem_filter.2 ⟨hfeed.mem_about_iff.2 hk, decide_eq_true (UInt64.not_le.1 hle)⟩
      exact .inr ((htaken _).1 (hplace _ hmem))
  · intro hcaught
    refine ⟨_, hleft, fun e he => (htaken e).2 ?_⟩
    obtain ⟨hmem, hlater⟩ := List.mem_filter.1 he
    refine (hcaught e.slotName e.cell ((hfeed.mem_iff e).1 hmem)).resolve_left fun hle => ?_
    exact absurd (of_decide_eq_true hlater) (UInt64.not_lt.2 (UInt64.le_trans hle hcursor))

theorem upToDate_iff_of_quiet (h : mesh.Presents ids cats) (hquiet : mesh.Quiet) :
    (∀ source target, source ≠ target → mesh.UpToDate source target) ↔
      ∀ source target, source ≠ target → Catalog.CaughtUp ids cats source target := by
  refine forall_congr' fun source => forall_congr' fun target => forall_congr' fun hne => ?_
  obtain ⟨hroom, happlied⟩ := hquiet source target hne
  exact h.upToDate_iff hroom happlied

end Presents

instance (mesh : Mesh (Fin 3)) : Decidable mesh.Quiet := inferInstanceAs (Decidable (∀ _, _))

private theorem reachable_three :
    Reachable (fun event => Event.isStore event = true) three := .three _

/-- Nodes that do not own a slot agree on it in a quiet mesh. -/
theorem valueOf?_eq_of_quiet {mesh : Mesh ι}
    (h : Reachable (fun event => event.isStore = true) mesh) (hquiet : mesh.Quiet)
    (hupToDate : ∀ source target, source ≠ target → mesh.UpToDate source target) {i j : ι}
    {k : SlotName} (hi : k.serverId ≠ mesh.ids i) (hj : k.serverId ≠ mesh.ids j) :
    mesh.valueOf? i k = mesh.valueOf? j k := by
  obtain ⟨ids, cats, hpresents⟩ := h.presents
  have hcaught := (hpresents.upToDate_iff_of_quiet hquiet).1 hupToDate
  rw [hpresents.ids_eq] at hi hj
  rw [hpresents.valueOf?_eq, hpresents.valueOf?_eq]
  exact congrArg Except.ok (hpresents.consistent.agree_beside hcaught hpresents.distinct hi hj)

/-- A quiet mesh that local stores and exchanges have led to has converged exactly when no exchange
is cut short before an entry that is missing, and every value of an owner is held by another
node. -/
theorem converged_iff_of_quiet {mesh : Mesh ι}
    (h : Reachable (fun event => event.isStore = true) mesh) (hquiet : mesh.Quiet) :
    mesh.Converged ↔
      (∀ source target, source ≠ target → mesh.UpToDate source target) ∧ mesh.OwnersHeld := by
  obtain ⟨ids, cats, hpresents⟩ := h.presents
  rw [hpresents.converged_iff, hpresents.upToDate_iff_of_quiet hquiet, hpresents.ownersHeld_iff]
  constructor
  · intro hsame
    have hcaught : ∀ i j, i ≠ j → Catalog.CaughtUp ids cats i j := by
      intro i j _ k cell hk
      refine .inr (.inr ?_)
      rw [← hsame i j k, hk]
      rfl
    exact ⟨hcaught, (hpresents.consistent.sameValues_iff hcaught hpresents.distinct).1 hsame⟩
  · rintro ⟨hcaught, hheld⟩
    exact (hpresents.consistent.sameValues_iff hcaught hpresents.distinct).2 hheld

theorem converged_iff_of_two_writers : ∃ mesh : Mesh (Fin 3),
    Reachable (fun event => event.isStore = true) mesh ∧ mesh.Quiet ∧
      (∀ i, Index.totalOf (mesh i).engine.snapshot "group" "name" = .ok 7) ∧
      (mesh.Converged ↔ mesh.OwnersHeld) := by
  obtain ⟨mesh, hreachable, hquiet, hleft, htotal⟩ := reachable_three.exists_of_run
    [add 0 3, add 1 4, .exchange 0 1, .exchange 1 2, .exchange 2 0, .exchange 0 1, .exchange 1 0,
      .exchange 2 1, .exchange 0 2]
    (fun mesh => mesh.Quiet ∧
      (∀ source target, source ≠ target → mesh.left source target = .ok []) ∧
      ∀ i, Index.totalOf (mesh i).engine.snapshot "group" "name" = .ok 7) (by decide +kernel)
  refine ⟨mesh, hreachable, hquiet, htotal, ?_⟩
  rw [converged_iff_of_quiet hreachable hquiet, and_iff_right]
  exact fun source target hne => ⟨[], hleft source target hne, nofun⟩

/-- The second node takes the new value of the first and then, from the third, the old one. -/
theorem not_converged_of_late_relay : ∃ mesh : Mesh (Fin 3),
    Reachable (fun event => event.isStore = true) mesh ∧ mesh.Quiet ∧
      (∀ source target, source ≠ target → mesh.left source target = .ok []) ∧
      Index.totalOf (mesh 0).engine.snapshot "group" "name" = .ok 5 ∧
      Index.totalOf (mesh 1).engine.snapshot "group" "name" = .ok 3 ∧ ¬ mesh.Converged := by
  obtain ⟨mesh, hreachable, hquiet, hleft, hfirst, hsecond⟩ := reachable_three.exists_of_run
    [add 0 3, .exchange 0 1, .exchange 0 2, add 0 2, .exchange 0 1, .exchange 2 1, .exchange 0 2,
      .exchange 1 2, .exchange 2 1, .exchange 1 0, .exchange 2 0]
    (fun mesh => mesh.Quiet ∧
      (∀ source target, source ≠ target → mesh.left source target = .ok []) ∧
      Index.totalOf (mesh 0).engine.snapshot "group" "name" = .ok 5 ∧
      Index.totalOf (mesh 1).engine.snapshot "group" "name" = .ok 3) (by decide +kernel)
  refine ⟨mesh, hreachable, hquiet, hleft, hfirst, hsecond, fun hconverged => ?_⟩
  have htotal := (hconverged 0 1 "group" "name").2
  rw [hfirst, hsecond] at htotal
  exact absurd htotal (by decide)

end Mesh

end CounterMesh
