import CounterMesh.Proofs.Replication.Network

/-!
# Deletions that nothing undoes

Any write of a slot of a node revives a deleted counter, also one that was
relayed late. A deletion is safe from that once all other nodes are silent about
the counter: what they hold of it has been pulled by everybody, its owners apart.
From then on every node is silent or has the counter deleted. A silent node
gives nothing away, and one with the tombstone gives that last, so neither state
is ever left for another one, unless an exchange is cut between the entries of
the counter.
-/

namespace CounterMesh

namespace Catalog

variable {own source : ServerId} {src c c' : Catalog} {group name : String}

/-- What a node has yet to pull of the counter from another one are slots of its own. -/
def Silent (own source : ServerId) (src c : Catalog) (group name : String) : Prop :=
  ∀ k cell, k.Of group name → src.slot k = some cell → c.cursorFor source < cell.etag →
    k.serverId = own

theorem Silent.untouched {src' : Catalog} (h : Silent own source src c group name)
    (hsame : Untouched src src' group name) (hle : c.cursorFor source ≤ c'.cursorFor source) :
    Silent own source src' c' group name := by
  intro k cell hof hk hlt
  rw [hsame k hof] at hk
  exact h k cell hof hk (UInt64.lt_of_le_of_lt hle hlt)

/-- A pull from a silent node leaves the counter as it was. -/
theorem Silent.pulls (h : Silent own source src c group name) (hpulls : Pulls own source src c c') :
    Untouched c c' group name := by
  rcases hpulls.counter group name with ⟨hsame, _⟩ | ⟨k, cell, hof, hk, hforeign, _⟩
  · exact hsame
  · exact absurd (h k cell hof hk.slot hk.since_lt) hforeign

/-- A pull from a node that has the counter deleted deletes it, or leaves it as it was, when it
comes to the end of the entries about the counter or passes none of them. -/
theorem Pulls.dead (hpulls : Pulls own source src c c') (hsrc : src.Sound) (hown : own ≠ .nil)
    (hdead : src.Dead group name)
    (hwhole : Silent own source src c' group name ∨ ∀ k cell, k.Of group name →
      src.Passed (c.cursorFor source) (c'.cursorFor source) k cell → k.serverId = own) :
    Untouched c c' group name ∨ c'.Dead group name := by
  rcases hwhole with hsilent | hnone
  · obtain ⟨cell, ht⟩ := Option.isSome_iff_exists.1 hdead
    have hle : cell.etag ≤ c'.cursorFor source := by
      by_contra hlt
      exact hown (hsilent _ cell (SlotName.of_tombstone ..) ht (UInt64.not_le.1 hlt)).symm
    rcases hpulls.counter_of_source hsrc hown ht hle with ⟨hsame, _⟩ | hvalue
    · exact .inl hsame
    · obtain ⟨cell', ht', _⟩ := Option.map_eq_some_iff.1 hvalue
      exact .inr (Option.isSome_iff_exists.2 ⟨cell', ht'⟩)
  · rcases hpulls.counter group name with ⟨hsame, _⟩ | ⟨k, cell, hof, hk, hforeign, _⟩
    · exact .inl hsame
    · exact absurd (hnone k cell hof hk) hforeign

end Catalog

namespace Mesh

variable {ι : Type} {mesh : Mesh ι} {ids : ι → ServerId} {cats cats' : ι → Catalog}
variable {group name : String} {source target : ι}

/-- The entries about a counter that are not of slots of this node. -/
def foreign (group name : String) (own : ServerId) (entries : List FeedEntry) : List FeedEntry :=
  entries.filter fun e => e.slotName.Of group name ∧ e.serverId ≠ own

theorem eq_of_foreign_eq_nil {own : ServerId} {entries : List FeedEntry} {k : SlotName}
    {cell : Cell} (hnone : foreign group name own entries = []) (hk : .about k cell ∈ entries)
    (hof : k.Of group name) : k.serverId = own := by
  by_contra hforeign
  exact List.filter_eq_nil_iff.1 hnone _ hk (decide_eq_true ⟨hof, hforeign⟩)

/-- What the nodes beside this one hold of the counter has been pulled from them by all nodes, the
owners of the slots apart. -/
def Shown (mesh : Mesh ι) (node : ι) (group name : String) : Prop :=
  ∀ source target, source ≠ node → source ≠ target →
    (mesh.beyond source target).map (foreign group name (mesh.ids target)) = .ok []

section Exchanges

variable [DecidableEq ι]

/-- The exchange comes to the end of the entries about the counter, or passes none of them; those
of the target itself do not count. -/
def Whole (mesh : Mesh ι) (source target : ι) (group name : String) : Prop :=
  (mesh.left source target).map (foreign group name (mesh.ids target)) = .ok [] ∨
    (mesh.passed source target).map (foreign group name (mesh.ids target)) = .ok []

/-- Nobody writes the counter by a local call, and no exchange is cut between its entries. -/
def Spares (group name : String) (mesh : Mesh ι) : Event ι → Prop
  | .write _ calls _ => ∀ call ∈ calls, call.isLocal = true ∧ call.counter? ≠ some (group, name)
  | .exchange source target => source ≠ target ∧ mesh.Whole source target group name
  | .outside .. => True

theorem Spares.isLocal {event : Event ι} (h : Spares group name mesh event) :
    event.isLocal = true := by
  cases event with
  | write node calls notify => exact List.all_eq_true.2 fun call hcall => (h call hcall).1
  | exchange source target => exact decide_eq_true h.1
  | outside => rfl

end Exchanges

namespace Carries

theorem silent_of_beyond (h : mesh.Carries ids cats)
    (hnone : (mesh.beyond source target).map (foreign group name (mesh.ids target)) = .ok []) :
    Catalog.Silent (ids target) (ids source) (cats source) (cats target) group name := by
  obtain ⟨feed, hfeed, _⟩ := h.exists_feed source
  have hbeyond := h.beyond_eq hfeed target
  rw [hbeyond, h.ids_eq] at hnone
  exact fun k cell hof hk hlt =>
    eq_of_foreign_eq_nil (Except.ok.inj hnone) ((h.mem_beyond_iff hbeyond).2 ⟨hk, hlt⟩) hof

variable [DecidableEq ι]

/-- What a whole exchange leaves of the counter, and what it passes. -/
theorem whole (h : mesh.Carries ids cats)
    (h' : Carries (mesh.next (.exchange source target)) ids cats')
    (hwhole : mesh.Whole source target group name) :
    Catalog.Silent (ids target) (ids source) (cats source) (cats' target) group name ∨
      ∀ k cell, k.Of group name →
        (cats source).Passed ((cats target).cursorFor (ids source))
          ((cats' target).cursorFor (ids source)) k cell → k.serverId = ids target := by
  obtain ⟨feed, hfeed, _⟩ := h.exists_feed source
  have hholds := h'.holds target
  rw [Mesh.next, Function.update_self] at hholds
  have hleft := h.left_eq hfeed hholds
  obtain ⟨entries, hpassed, hmem⟩ := h.exists_passed h'
  rw [Whole, hleft, hpassed, h.ids_eq] at hwhole
  refine hwhole.imp (fun hnone k cell hof hk hlt => ?_) fun hnone k cell hof hk => ?_
  · exact eq_of_foreign_eq_nil (Except.ok.inj hnone) ((h.mem_left_iff h' hleft).2 ⟨hk, hlt⟩) hof
  · exact eq_of_foreign_eq_nil (Except.ok.inj hnone) ((hmem k cell).2 hk) hof

end Carries

/-- Every node has the counter deleted, or gives nothing of it away. -/
def Covered (ids : ι → ServerId) (cats : ι → Catalog) (group name : String) : Prop :=
  ∀ i, (cats i).Dead group name ∨
    ∀ j, i ≠ j → Catalog.Silent (ids j) (ids i) (cats i) (cats j) group name

/-- Deletions go on covering the counter while each node is left as it was or deletes it. -/
theorem Covered.step (h : Covered ids cats group name)
    (hcounter : ∀ i, Catalog.Untouched (cats i) (cats' i) group name ∨ (cats' i).Dead group name)
    (hcursor : ∀ i j, (cats j).cursorFor (ids i) ≤ (cats' j).cursorFor (ids i)) :
    Covered ids cats' group name := by
  intro i
  rcases hcounter i with hsame | hdead
  · rcases h i with hdead | hsilent
    · exact .inl (hsame.dead_iff.2 hdead)
    · exact .inr fun j hij => (hsilent j hij).untouched hsame (hcursor i j)
  · exact .inl hdead

variable [DecidableEq ι]

/-- An event that spares a covered counter leaves each node as it was or deletes it there. -/
theorem Covered.untouched_or_dead {event : Event ι} (h : Covered ids cats group name)
    (hcarries : mesh.Carries ids cats) (hcarries' : Carries (mesh.next event) ids cats')
    (hspares : Spares group name mesh event) (hmoves : Moves ids cats event cats') (i : ι) :
    Catalog.Untouched (cats i) (cats' i) group name ∨ (cats' i).Dead group name := by
  let related := fun c c' : Catalog => Catalog.Untouched c c' group name ∨ c'.Dead group name
  have hrefl : ∀ c, related c c := fun c => .inl (.refl c group name)
  cases hmoves with
  | @write node calls notify c renews cursors =>
      refine update_relates related hrefl (.inl ?_) i
      refine (renews.untouched_or group name).resolve_right ?_
      rintro ⟨k, cell, ⟨rfl, rfl⟩, _, _, _, call, hcall, htouches⟩
      exact (hspares call hcall).2 (Call.counter?_of_touches htouches)
  | @exchange source target c apart pulls =>
      refine update_relates related hrefl ?_ i
      rcases h source with hdead | hsilent
      · have hwhole := hcarries.whole hcarries' hspares.2
        rw [Function.update_self] at hwhole
        exact pulls.dead (hcarries.sound source) (hcarries.ids_ne_nil target) hdead hwhole
      · exact .inl ((hsilent target apart).pulls pulls)
  | outside => exact hrefl _

/-- Events that spare a covered counter leave it covered, and deleted where it was. -/
theorem Leads.covered {mesh' : Mesh ι} (h : Leads (Spares group name) mesh mesh')
    (hcarries : mesh.Carries ids cats) (hcovered : Covered ids cats group name) :
    ∃ cats', mesh'.Carries ids cats' ∧ Covered ids cats' group name ∧
      ∀ i, (cats i).Dead group name → (cats' i).Dead group name := by
  induction h with
  | refl => exact ⟨cats, hcarries, hcovered, fun _ => id⟩
  | next h event hallowed hroom ih =>
      obtain ⟨cats', hcarries', hcovered', hkept⟩ := ih
      obtain ⟨cats'', hcarries'', hmoves⟩ := hcarries'.next hallowed.isLocal hroom
      have hcounter := hcovered'.untouched_or_dead hcarries' hcarries'' hallowed hmoves
      refine ⟨cats'', hcarries'', hcovered'.step hcounter fun i => hmoves.cursorFor_le (ids i),
        fun i hdead => ?_⟩
      exact (hcounter i).elim (fun hsame => hsame.dead_iff.2 (hkept i hdead)) id

/-- A counter that a node deletes while no other node has a slot of it left to show stays deleted
on every node that applies the deletion, whatever exchanges follow that are not cut between the
entries of the counter. -/
theorem isDeleted_of_shown {later latest : Mesh ι} {node i : ι} {calls : List Call} {notify : Bool}
    (h : Reachable (fun event => event.isLocal = true) mesh) (hshown : mesh.Shown node group name)
    (hlocal : calls.all Call.isLocal = true) (hroom : mesh.HasRoom (.write node calls notify))
    (hdeleted : (mesh.next (.write node calls notify)).IsDeleted node group name)
    (hlater : Leads (Spares group name) (mesh.next (.write node calls notify)) later)
    (happlied : later.IsDeleted i group name)
    (hlatest : Leads (Spares group name) later latest) :
    latest.IsDeleted i group name ∧
      Index.liveId? (latest i).engine.snapshot group name = .ok none := by
  obtain ⟨ids, cats, hcarries⟩ := h.exists_carries
  have hwrite : Event.isLocal (.write node calls notify : Event ι) = true := hlocal
  obtain ⟨cats₁, hcarries₁, hmoves⟩ := hcarries.next hwrite hroom
  have hcovered : Covered ids cats₁ group name := by
    intro source
    by_cases hsource : source = node
    · subst hsource
      exact .inl ((hcarries₁.isDeleted_iff source).1 hdeleted)
    · refine .inr fun target hne => ?_
      have hsilent := hcarries.silent_of_beyond (hshown source target hsource hne)
      have hsame : cats₁ source = cats source := hmoves.eq_of_ne hsource
      exact hsame ▸ hsilent.untouched (.refl _ group name) (hmoves.cursorFor_le _ target)
  obtain ⟨cats₂, hcarries₂, hcovered₂, _⟩ := hlater.covered hcarries₁ hcovered
  obtain ⟨cats₃, hcarries₃, _, hkept⟩ := hlatest.covered hcarries₂ hcovered₂
  have hdead := hkept i ((hcarries₂.isDeleted_iff i).1 happlied)
  refine ⟨(hcarries₃.isDeleted_iff i).2 hdead, ?_⟩
  have hlive : (cats₃ i).liveId? group name = none := Option.not_isSome_iff_eq_none.1 fun hsome =>
    (Catalog.isSome_liveId?_iff.1 hsome).not_dead hdead
  rw [Catalog.index_liveId? (hcarries₃.shows i), hlive]

instance (mesh : Mesh (Fin 3)) (node : Fin 3) : Decidable (mesh.Shown node group name) :=
  inferInstanceAs (Decidable (∀ _, _))

/-- The first node deletes what all others have shown to each other. The second applies that, and
keeps it when it pulls from the third, where the counter is live. -/
theorem isDeleted_of_pull_of_live : ∃ mesh : Mesh (Fin 3),
    Reachable (fun event => event.isLocal = true) mesh ∧ mesh.Shown 0 "group" "name" ∧
      (mesh.nexts [remove 0, .exchange 0 1]).IsDeleted 1 "group" "name" ∧
      Index.totalOf (mesh.nexts [remove 0, .exchange 0 1] 2).engine.snapshot
        "group" "name" = .ok 3 ∧
      (mesh.nexts [remove 0, .exchange 0 1, .exchange 2 1]).IsDeleted 1 "group" "name" ∧
      Index.liveId? (mesh.nexts [remove 0, .exchange 0 1, .exchange 2 1] 1).engine.snapshot
        "group" "name" = .ok none := by
  obtain ⟨mesh, hreachable, hshown, hroom, hdeleted, ⟨hroom₁, hleft₁⟩, happlied, hlive,
      hroom₂, hleft₂⟩ :=
    (Reachable.three fun event => event.isLocal = true).exists_of_run
      [add 0 3, .exchange 0 1, .exchange 0 2, .exchange 1 2, .exchange 2 1]
      (fun mesh => mesh.Shown 0 "group" "name" ∧ mesh.HasRoom (remove 0) ∧
        (mesh.nexts [remove 0]).IsDeleted 0 "group" "name" ∧
        (mesh.nexts [remove 0]).Completes 0 1 ∧
        (mesh.nexts [remove 0, .exchange 0 1]).IsDeleted 1 "group" "name" ∧
        Index.totalOf (mesh.nexts [remove 0, .exchange 0 1] 2).engine.snapshot
          "group" "name" = .ok 3 ∧
        (mesh.nexts [remove 0, .exchange 0 1]).Completes 2 1) (by decide +kernel)
  have hspares₁ : Spares "group" "name" (mesh.nexts [remove 0]) (.exchange 0 1) :=
    ⟨by decide, .inl (by rw [hleft₁]; rfl)⟩
  have hspares₂ : Spares "group" "name" (mesh.nexts [remove 0, .exchange 0 1]) (.exchange 2 1) :=
    ⟨by decide, .inl (by rw [hleft₂]; rfl)⟩
  exact ⟨mesh, hreachable, hshown, happlied, hlive,
    isDeleted_of_shown hreachable hshown rfl hroom hdeleted (.next .refl _ hspares₁ hroom₁)
      happlied (.next .refl _ hspares₂ hroom₂)⟩

/-- A node that applied a deletion takes the counter back, without any further write, when it pulls
an old slot that it had yet to see from a third node, and also from one that an exchange has cut off
in front of the tombstone. -/
theorem revived_by_exchanges :
    (∃ mesh : Mesh (Fin 3), Reachable (fun event => event.isLocal = true) mesh ∧
      (∀ i, Index.slotsOf (mesh i).engine.snapshot "group" "name" =
        .ok [⟨mesh.ids 0, .positive, 3⟩]) ∧
      (mesh.nexts [remove 0]).Completes 0 1 ∧
      (mesh.nexts [remove 0, .exchange 0 1]).IsDeleted 1 "group" "name" ∧
      (mesh.nexts [remove 0, .exchange 0 1]).Completes 2 1 ∧
      Index.totalOf (mesh.nexts [remove 0, .exchange 0 1, .exchange 2 1] 1).engine.snapshot
        "group" "name" = .ok 0) ∧
    ∃ mesh : Mesh (Fin 3), Reachable (fun event => event.isLocal = true) mesh ∧
      mesh.Shown 0 "group" "name" ∧
      (∀ i, Index.slotsOf (mesh i).engine.snapshot "group" "name" =
        .ok [⟨mesh.ids 0, .positive, 3⟩]) ∧
      (mesh.nexts [remove 0]).Completes 0 2 ∧
      (mesh.nexts [remove 0, .exchange 0 2]).IsDeleted 2 "group" "name" ∧
      (mesh.nexts [remove 0, .exchange 0 2]).HasRoom (.exchange 0 1) ∧
      (mesh.nexts [remove 0, .exchange 0 2, .exchange 0 1]).Completes 1 2 ∧
      Index.totalOf
        (mesh.nexts [remove 0, .exchange 0 2, .exchange 0 1, .exchange 1 2] 2).engine.snapshot
        "group" "name" = .ok 0 := by
  constructor
  · exact (Reachable.three fun event => event.isLocal = true).exists_of_run
      [add 0 3, .exchange 0 1, .exchange 0 2] _ (by decide +kernel)
  · have hnodes : Reachable (fun event => event.isLocal = true)
        (nodes 3 slowConfig rfl (by decide)) := .nodes rfl (by decide)
    exact hnodes.exists_of_run
      [hold 0, hold 2, add 0 3, .exchange 0 1, .exchange 0 2, .exchange 1 2, .exchange 2 1] _
      (by decide +kernel)

end Mesh

end CounterMesh
