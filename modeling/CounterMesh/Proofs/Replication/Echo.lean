import CounterMesh.Proofs.Replication.Network

/-!
# Exchanges between nodes that agree

Two nodes that agree on everything may still have slots to show to each other. An
exchange between them is idle as long as it passes nothing but slots of the
target, tombstones and slots of live counters. The slot of a node in a deleted
counter is not in place, though both nodes hold the same in it: the exchange
revives the counter by it and deletes it again by the tombstone that comes
behind, and hands both on under fresh etags.
-/

namespace CounterMesh

/-- A store whose cursors have moved has the trees that it had, the one with the cursors apart. -/
theorem Database.Shows.get?_of_cursors {db db' : Database} {c c' : Catalog}
    (h : db.Shows c.ledger) (h' : db'.Shows c'.ledger) (hc : c' = { c with cursors := c'.cursors })
    {name : String} {kind : TreeKind} (hmem : (name, kind) ∈ Layout.trees)
    (hne : name ≠ Layout.peerEtags) : db'.get? name = db.get? name := by
  rcases Layout.column_of_mem hmem with ⟨column, rfl⟩ | ⟨column, rfl⟩
  · refine h'.get?_plain_eq h ?_
    rw [hc]
    cases column with
    | cursors => exact absurd rfl hne
    | _ => rfl
  · refine h'.get?_multi_eq h ?_
    rw [hc]
    cases column <;> rfl

namespace Mesh

variable {ι : Type} [DecidableEq ι] {mesh : Mesh ι} {source target : ι}

/-- An exchange applies nothing, and leaves all trees of the target as they are but the one with
the cursors. -/
structure Idle (mesh : Mesh ι) (source target : ι) : Prop where
  applied : mesh.applied source target = some 0
  trees : ∀ name kind, (name, kind) ∈ Layout.trees → name ≠ Layout.peerEtags →
    (mesh.next (.exchange source target) target).engine.snapshot.trees.get? name =
      (mesh target).engine.snapshot.trees.get? name

/-- The entry is about a slot, of another node than this one, in a counter that is deleted here. -/
def Hidden (mesh : Mesh ι) (node : ι) (e : FeedEntry) : Prop :=
  e.serverId ≠ mesh.ids node ∧ e.serverId ≠ .nil ∧ mesh.IsDeleted node e.group e.name

instance (mesh : Mesh ι) (node : ι) : DecidablePred (mesh.Hidden node) :=
  fun _ => inferInstanceAs (Decidable (_ ∧ _))

/-- An exchange between nodes that agree is idle exactly when it passes no slot, of another node
than the target, in a counter that is deleted. -/
theorem idle_iff_of_agree (h : Reachable (fun event => event.isLocal = true) mesh)
    (hne : source ≠ target) (hagree : mesh.Agree source target)
    (hroom : mesh.HasRoom (.exchange source target)) :
    mesh.Idle source target ↔
      ∃ entries, mesh.passed source target = .ok entries ∧
        ∀ e ∈ entries, ¬ mesh.Hidden target e := by
  obtain ⟨ids, cats, hcarries⟩ := h.exists_carries
  obtain ⟨c, hpulls, hcarries', happlied, hcursors⟩ := hcarries.exchange hne hroom
  obtain ⟨entries, hpassed, hmem⟩ := hcarries.exists_passed hcarries'
  rw [Function.update_self] at hmem
  have hsame := hcarries.agree_iff.1 hagree
  -- Both nodes hold what a passed entry tells, so it is in place unless it is hidden.
  have hplace : ∀ e ∈ entries, ¬ mesh.Hidden target e ↔
      e.serverId = ids target ∨ (cats target).InPlace e.slotName e.value := by
    intro e he
    have hvalue : ((cats target).slot e.slotName).map Cell.value = some e.value := by
      rw [← hsame, ((hmem e.slotName e.cell).1 he).slot]
      rfl
    rw [Hidden, hcarries.ids_eq, hcarries.isDeleted_iff]
    constructor
    · intro hvisible
      by_contra hnot
      rw [not_or] at hnot
      refine hnot.2 ⟨hvalue, fun hnode hdead => hvisible ⟨hnot.1, hnode, hdead⟩⟩
    · rintro (hown | hinPlace) ⟨hforeign, hnode, hdead⟩
      · exact hforeign hown
      · exact hinPlace.not_dead hnode hdead
  have hidle : mesh.Idle source target ↔ mesh.applied source target = some 0 := by
    refine ⟨Idle.applied, fun hzero => ⟨hzero, fun name kind hname hcursor => ?_⟩⟩
    have hshows := hcarries'.shows target
    rw [Function.update_self] at hshows
    exact (hcarries.shows target).get?_of_cursors hshows (hcursors hzero) hname hcursor
  rw [hidle, happlied]
  constructor
  · intro hall
    refine ⟨entries, hpassed, fun e he => (hplace e he).2 ?_⟩
    exact hall e.slotName e.cell ((hmem _ _).1 he)
  · rintro ⟨entries', hpassed', hvisible⟩ k cell hk
    obtain rfl := Except.ok.inj (hpassed.symm.trans hpassed')
    have he := (hmem k cell).2 hk
    exact (hplace _ he).1 (hvisible _ he)

/-- Two nodes agree on a deleted counter. The first passes over its own slots and the tombstone
that it pulls back. -/
theorem idle_of_deletion_pulled_back : ∃ mesh : Mesh (Fin 3),
    Reachable (fun event => event.isLocal = true) mesh ∧ mesh.Agree 1 0 ∧
      mesh.IsDeleted 0 "group" "name" ∧ mesh.passed 1 0 ≠ .ok [] ∧ mesh.Idle 1 0 := by
  obtain ⟨mesh, hreachable, htold, hdeleted, hpassed, hroom, hvisible⟩ :=
    (Reachable.three fun event => event.isLocal = true).exists_of_run
      [add 0 3, remove 0, .exchange 0 1]
      (fun mesh => (mesh.told 1).Perm (mesh.told 0) ∧ mesh.IsDeleted 0 "group" "name" ∧
        mesh.passed 1 0 ≠ .ok [] ∧ mesh.HasRoom (.exchange 1 0) ∧
        ((mesh.passed 1 0).map fun entries => entries.filter fun e => mesh.Hidden 0 e) = .ok [])
      (by decide +kernel)
  have hagree : mesh.Agree 1 0 := hreachable.agree_of_told htold
  refine ⟨mesh, hreachable, hagree, hdeleted, hpassed,
    (idle_iff_of_agree hreachable (by decide) hagree hroom).2 ?_⟩
  cases hentries : mesh.passed 1 0 with
  | error e =>
      rw [hentries] at hvisible
      cases hvisible
  | ok entries =>
      rw [hentries] at hvisible
      have hnone := List.filter_eq_nil_iff.1 (Except.ok.inj hvisible)
      exact ⟨entries, rfl, fun e he hhidden => hnone e he (decide_eq_true hhidden)⟩

/-- A node deletes a counter, and a third one brings the second to agree with it. The exchange
between both applies a slot and the tombstone again, and leaves them in agreement; it is followed by
the same on the way to the third node and back. -/
theorem not_idle_of_hidden_slot : ∃ mesh : Mesh (Fin 3),
    Reachable (fun event => event.isLocal = true) mesh ∧
      mesh.Agree 0 1 ∧ mesh.applied 0 1 = some 2 ∧
      (mesh.nexts [.exchange 0 1]).Agree 1 2 ∧
      (mesh.nexts [.exchange 0 1]).applied 1 2 = some 2 ∧
      (mesh.nexts [.exchange 0 1, .exchange 1 2]).Agree 2 1 ∧
      (mesh.nexts [.exchange 0 1, .exchange 1 2]).applied 2 1 = some 2 := by
  obtain ⟨mesh, hreachable, htold, happlied, hroom, htold₁, happlied₁, hroom₁, htold₂, happlied₂⟩ :=
    (Reachable.three fun event => event.isLocal = true).exists_of_run
      [add 0 3, remove 0, .exchange 0 2, .exchange 2 1]
      (fun mesh => (mesh.told 0).Perm (mesh.told 1) ∧ mesh.applied 0 1 = some 2 ∧
        mesh.HasRoom (.exchange 0 1) ∧
        ((mesh.nexts [.exchange 0 1]).told 1).Perm ((mesh.nexts [.exchange 0 1]).told 2) ∧
        (mesh.nexts [.exchange 0 1]).applied 1 2 = some 2 ∧
        (mesh.nexts [.exchange 0 1]).HasRoom (.exchange 1 2) ∧
        ((mesh.nexts [.exchange 0 1, .exchange 1 2]).told 2).Perm
          ((mesh.nexts [.exchange 0 1, .exchange 1 2]).told 1) ∧
        (mesh.nexts [.exchange 0 1, .exchange 1 2]).applied 2 1 = some 2) (by decide +kernel)
  have hreachable₁ := hreachable.next (.exchange 0 1) rfl hroom
  have hreachable₂ := hreachable₁.next (.exchange 1 2) rfl hroom₁
  exact ⟨mesh, hreachable, hreachable.agree_of_told htold, happlied,
    hreachable₁.agree_of_told htold₁, happlied₁, hreachable₂.agree_of_told htold₂, happlied₂⟩

end Mesh

end CounterMesh
