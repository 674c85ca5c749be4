import CounterMesh.Proofs.Replication.Mesh
import CounterMesh.Proofs.Store.Reading

/-!
# The catalogs of a mesh

Every store of a mesh carries a catalog. A writer with local calls writes slots
of its own node and tombstones; an exchange pulls from the catalog of its source
into that of its target, and does not fail, since every counter has a name.
Facts about runs of a mesh are proved about these two moves.
-/

namespace CounterMesh

namespace Mesh

variable {ι : Type} {mesh mesh' : Mesh ι} {ids : ι → ServerId} {cats cats' : ι → Catalog}

/-- Writers do local calls only, and nodes pull from other nodes. -/
def Event.isLocal [DecidableEq ι] : Event ι → Bool
  | .write _ calls _ => calls.all Call.isLocal
  | .exchange source target => source ≠ target
  | .outside .. => true

/-- Nodes pull from other nodes, and nobody writes. -/
def Event.isPull [DecidableEq ι] : Event ι → Bool
  | .write .. => false
  | .exchange source target => source ≠ target
  | .outside .. => true

/-- The stores of a mesh carry catalogs, under ids of their own. -/
structure Carries (mesh : Mesh ι) (ids : ι → ServerId) (cats : ι → Catalog) : Prop where
  distinct : Function.Injective ids
  holds : ∀ i, (mesh i).Holds (ids i) (cats i)
  named : ∀ i, (cats i).AllNamed

namespace Carries

theorem start {opening : ι → Opening} (h : ∀ i, (opening i).start .empty = .ok (mesh i))
    (hfresh : ∀ i, (opening i).fresh ≠ .nil) (hdistinct : Function.Injective mesh.ids) :
    mesh.Carries mesh.ids fun i => .initial (mesh.ids i) where
  distinct := hdistinct
  holds := fun i => Opening.start_empty (h i) (hfresh i)
  named := by
    intro i k cell hk
    cases hk

variable {source target : ι} {feed : List FeedEntry}

theorem ids_eq (h : mesh.Carries ids cats) (i : ι) : mesh.ids i = ids i := (h.holds i).serverId_eq

theorem sound (h : mesh.Carries ids cats) (i : ι) : (cats i).Sound := (h.holds i).keeps.sound

theorem ids_ne_nil (h : mesh.Carries ids cats) (i : ι) : ids i ≠ .nil :=
  (h.holds i).serverId_eq ▸ (h.holds i).keeps.serverId

theorem shows (h : mesh.Carries ids cats) (i : ι) :
    (mesh i).engine.snapshot.trees.Shows (cats i).ledger := (h.holds i).keeps.shows

/-- The feed of a node, with its length as it is read. -/
theorem exists_feed (h : mesh.Carries ids cats) (source : ι) :
    ∃ feed, (cats source).Feed feed ∧ mesh.feedLength source = feed.length ∧
      ∀ e ∈ feed, Named e.group e.name := by
  obtain ⟨feed, hfeed, hcount, _⟩ := Catalog.exists_feed (h.shows source) (h.sound source)
  refine ⟨feed, hfeed, by rw [feedLength, hcount]; rfl, fun e he => ?_⟩
  exact h.named source e.slotName e.cell ((hfeed.mem_iff e).1 he)

theorem valueOf?_eq (h : mesh.Carries ids cats) (node : ι) (k : SlotName) :
    mesh.valueOf? node k = .ok (((cats node).slot k).map Cell.value) :=
  (h.holds node).valueOf?_eq k

theorem live_eq (h : mesh.Carries ids cats) (node : ι) (group name : String) :
    (Index.liveId? (mesh node).engine.snapshot group name).map Option.isSome =
      .ok ((cats node).liveId? group name).isSome :=
  congrArg (Except.map Option.isSome) (Catalog.index_liveId? (h.shows node))

theorem deleted_eq (h : mesh.Carries ids cats) (node : ι) (group name : String) :
    (Index.deletedId? (mesh node).engine.snapshot group name).map Option.isSome =
      .ok ((cats node).deletedId? group name).isSome :=
  congrArg (Except.map Option.isSome) (Catalog.index_deletedId? (h.shows node))

theorem isDeleted_iff (h : mesh.Carries ids cats) (node : ι) {group name : String} :
    mesh.IsDeleted node group name ↔ (cats node).Dead group name := by
  rw [IsDeleted, h.deleted_eq, Except.ok.injEq, Catalog.isSome_deletedId?_iff]

/-- Nodes agree exactly when their catalogs hold the same values. -/
theorem agree_iff (h : mesh.Carries ids cats) {i j : ι} :
    mesh.Agree i j ↔ (cats i).SameValues (cats j) := by
  constructor
  · intro hagree k
    have hvalues := hagree.values k
    rw [h.valueOf?_eq, h.valueOf?_eq, Except.ok.injEq] at hvalues
    exact hvalues
  · intro hsame
    refine ⟨fun group name => ?_, fun group name => ?_, fun k => ?_⟩
    · rw [h.live_eq, h.live_eq, Except.ok.injEq, Bool.eq_iff_iff, Catalog.isSome_liveId?_iff,
        Catalog.isSome_liveId?_iff]
      exact hsame.live_iff (h.sound i) (h.sound j)
    · rw [h.deleted_eq, h.deleted_eq, Except.ok.injEq, Bool.eq_iff_iff,
        Catalog.isSome_deletedId?_iff, Catalog.isSome_deletedId?_iff]
      exact hsame.dead_iff
    · rw [h.valueOf?_eq, h.valueOf?_eq, hsame k]

/-- A node tells the value of every slot. -/
theorem mem_told_iff (h : mesh.Carries ids cats) {i : ι} {k : SlotName} {value : Int64} :
    (k, value) ∈ mesh.told i ↔ ((cats i).slot k).map Cell.value = some value := by
  have hfeed := (h.holds i).feed
  rw [told, List.mem_map, Option.map_eq_some_iff]
  constructor
  · rintro ⟨e, he, heq⟩
    obtain ⟨rfl, rfl⟩ := Prod.mk.inj heq
    exact ⟨e.cell, (hfeed.mem_iff e).1 he, rfl⟩
  · rintro ⟨cell, hk, rfl⟩
    exact ⟨.about k cell, hfeed.mem_about_iff.2 hk, rfl⟩

/-- The entries that another node has not pulled yet stand behind its cursor. -/
theorem beyond_eq (h : mesh.Carries ids cats) (hfeed : (cats source).Feed feed) (target : ι) :
    mesh.beyond source target = .ok (feedAfter feed ((cats target).cursorFor (ids source))) := by
  obtain ⟨feed', hfeed', hlength, _⟩ := h.exists_feed source
  obtain rfl := hfeed.unique hfeed'
  rw [beyond, h.ids_eq, Catalog.index_lastEtagFor (h.shows target), hlength]
  exact hfeed.changes_length (h.shows source) (h.sound source) _

theorem mem_beyond_iff (h : mesh.Carries ids cats) {entries : List FeedEntry}
    (hbeyond : mesh.beyond source target = .ok entries) {k : SlotName} {cell : Cell} :
    .about k cell ∈ entries ↔ (cats source).slot k = some cell ∧
      (cats target).cursorFor (ids source) < cell.etag := by
  obtain ⟨feed, hfeed, _⟩ := h.exists_feed source
  rw [h.beyond_eq hfeed, Except.ok.injEq] at hbeyond
  rw [← hbeyond, feedAfter, List.mem_filter, hfeed.mem_about_iff, decide_eq_true_iff]
  rfl

variable [DecidableEq ι]

/-- What an exchange leaves stands behind the cursor that it leaves. -/
theorem left_eq (h : mesh.Carries ids cats) (hfeed : (cats source).Feed feed) {c : Catalog}
    (hholds : ((mesh target).after (mesh.exchange source target)).Holds (ids target) c) :
    mesh.left source target = .ok (feedAfter feed (c.cursorFor (ids source))) := by
  obtain ⟨feed', hfeed', hlength, _⟩ := h.exists_feed source
  obtain rfl := hfeed.unique hfeed'
  have hcursor : Index.lastEtagFor
      ((mesh target).after (mesh.exchange source target)).engine.snapshot (ids source) =
        .ok (c.cursorFor (ids source)) := Catalog.index_lastEtagFor hholds.keeps.shows _
  simp only [left, h.ids_eq, hcursor, hlength]
  exact hfeed.changes_length (h.shows source) (h.sound source) _

theorem mem_left_iff (h : mesh.Carries ids cats) {cats' : ι → Catalog}
    (h' : Carries (mesh.next (.exchange source target)) ids cats') {entries : List FeedEntry}
    (hleft : mesh.left source target = .ok entries) {k : SlotName} {cell : Cell} :
    .about k cell ∈ entries ↔ (cats source).slot k = some cell ∧
      (cats' target).cursorFor (ids source) < cell.etag := by
  obtain ⟨feed, hfeed, _⟩ := h.exists_feed source
  have hholds := h'.holds target
  rw [Mesh.next, Function.update_self] at hholds
  rw [h.left_eq hfeed hholds, Except.ok.injEq] at hleft
  rw [← hleft, feedAfter, List.mem_filter, hfeed.mem_about_iff, decide_eq_true_iff]
  rfl

/-- An exchange passes what stands between the cursor that it finds and the one that it leaves. -/
theorem exists_passed (h : mesh.Carries ids cats) {cats' : ι → Catalog}
    (h' : Carries (mesh.next (.exchange source target)) ids cats') :
    ∃ entries, mesh.passed source target = .ok entries ∧ ∀ k cell, .about k cell ∈ entries ↔
      (cats source).Passed ((cats target).cursorFor (ids source))
        ((cats' target).cursorFor (ids source)) k cell := by
  obtain ⟨feed, hfeed, _⟩ := h.exists_feed source
  have hholds := h'.holds target
  rw [Mesh.next, Function.update_self] at hholds
  have hleft := h.left_eq hfeed hholds
  have hbeyond := h.beyond_eq hfeed target
  refine ⟨_, by rw [passed, hbeyond, hleft]; rfl, fun k cell => ?_⟩
  rw [List.mem_filter, decide_eq_true_iff, h.mem_beyond_iff hbeyond, h.mem_left_iff h' hleft]
  constructor
  · rintro ⟨⟨hk, hlt⟩, hnot⟩
    exact ⟨hk, hlt, UInt64.not_lt.1 fun hlater => hnot ⟨hk, hlater⟩⟩
  · rintro ⟨hk, hlt, hle⟩
    exact ⟨⟨hk, hlt⟩, fun hlater => UInt64.not_lt.2 hle hlater.2⟩

/-- An exchange between two nodes, or on a node without deleted counters, pulls from the catalog of
the source. -/
theorem returns_exchange (h : mesh.Carries ids cats)
    (happart : source ≠ target ∨ (cats source).Undeleted)
    (hroom : mesh.HasRoom (.exchange source target)) :
    ∃ feed, (cats source).Feed feed ∧
      (∀ count, Catalog.Pulls (ids target) (ids source) (cats source) (cats target)
        ((cats target).pull (ids target) (ids source) feed count)) ∧
      Returns (mesh.exchange source target) (mesh target) fun applied store' =>
        ∃ count, applied = (cats target).pulled (ids target) (ids source) feed count ∧
          store'.Holds (ids target)
            ((cats target).pull (ids target) (ids source) feed count) := by
  obtain ⟨feed, hfeed, hlength, hnamed⟩ := h.exists_feed source
  have hroom' : (cats target).HasRoom feed.length :=
    (h.holds target).hasRoom_iff.1 (hlength ▸ hroom)
  have horigin : (mesh.origin source target).Feeds (ids target) (ids source) (cats target)
      feed := by
    rw [origin]
    split
    · next heq =>
      subst heq
      exact Origin.feeds_shared (h.sound source)
        (happart.resolve_left fun hne => hne rfl) hfeed
    · exact Origin.feeds_apart (h.shows source) (h.sound source) hfeed
  refine ⟨feed, hfeed, fun count => ?_, ?_⟩
  · exact Catalog.pulls_pull hfeed (h.sound source) (h.sound target) hroom' _ _ count
  · rw [exchange, h.ids_eq]
    exact StoreM.returns_replicate hfeed hnamed (h.holds target) horigin hroom'

theorem update (h : mesh.Carries ids cats) {i : ι} {store : Store} {c : Catalog}
    (hholds : store.Holds (ids i) c) (hn : c.AllNamed) :
    Carries (Function.update mesh i store) ids (Function.update cats i c) where
  distinct := h.distinct
  holds := by
    intro j
    by_cases hj : j = i
    · subst hj
      rwa [Function.update_self, Function.update_self]
    · rw [Function.update_of_ne hj, Function.update_of_ne hj]
      exact h.holds j
  named := by
    intro j
    by_cases hj : j = i
    · subst hj
      rwa [Function.update_self]
    · rw [Function.update_of_ne hj]
      exact h.named j

/-- An exchange between two nodes pulls into the catalog of the target. It applies nothing exactly
when all it passes belongs to the target or is in place there, and then it moves the cursor
only. -/
theorem exchange (h : mesh.Carries ids cats) (happart : source ≠ target)
    (hroom : mesh.HasRoom (.exchange source target)) :
    ∃ c, Catalog.Pulls (ids target) (ids source) (cats source) (cats target) c ∧
      Carries (mesh.next (.exchange source target)) ids (Function.update cats target c) ∧
      (mesh.applied source target = some 0 ↔ ∀ k cell,
        (cats source).Passed ((cats target).cursorFor (ids source)) (c.cursorFor (ids source))
          k cell → k.serverId = ids target ∨ (cats target).InPlace k cell.value) ∧
      (mesh.applied source target = some 0 → c = { cats target with cursors := c.cursors }) := by
  obtain ⟨feed, hfeed, hpulls, applied, store', hrun, count, rfl, hholds⟩ :=
    h.returns_exchange (.inl happart) hroom
  have happlied : mesh.applied source target =
      some ((cats target).pulled (ids target) (ids source) feed count) := by
    rw [Mesh.applied, hrun]
  have hafter : (mesh target).after (mesh.exchange source target) = store' := by
    exact leaving_of_ok hrun
  rw [happlied, Option.some.injEq]
  refine ⟨_, hpulls count, h.update (hafter ▸ hholds) ?_,
    hfeed.pulled_eq_zero_iff (h.sound source) _, Catalog.pull_of_pulled_eq_zero⟩
  refine (hpulls count).renews.allNamed (h.named target) ?_
  rintro k value ⟨_, hvalue⟩
  obtain ⟨cell, hk, _⟩ := Option.map_eq_some_iff.1 hvalue
  exact h.named source k cell hk

end Carries

variable [DecidableEq ι]

/-- What an event makes of the catalogs of a mesh. -/
inductive Moves (ids : ι → ServerId) (cats : ι → Catalog) : Event ι → (ι → Catalog) → Prop where
  | write {node : ι} {calls : List Call} {notify : Bool} {c : Catalog}
      (renews : Catalog.Renews (fun k _ => Call.Touched (ids node) calls k) (cats node) c)
      (cursors : c.cursors = (cats node).cursors) :
      Moves ids cats (.write node calls notify) (Function.update cats node c)
  | exchange {source target : ι} {c : Catalog} (apart : source ≠ target)
      (pulls : Catalog.Pulls (ids target) (ids source) (cats source) (cats target) c) :
      Moves ids cats (.exchange source target) (Function.update cats target c)
  | outside {node : ι} {clock : Clock} {signal : Signal} :
      Moves ids cats (.outside node clock signal) cats

/-- What the change of one catalog does, and doing nothing does as well, is done to all. -/
theorem update_relates (related : Catalog → Catalog → Prop) (hrefl : ∀ c, related c c) {i : ι}
    {c : Catalog} (h : related (cats i) c) (j : ι) :
    related (cats j) (Function.update cats i c j) := by
  by_cases hj : j = i
  · subst hj
    rwa [Function.update_self]
  · rw [Function.update_of_ne hj]
    exact hrefl _

/-- No cursor falls. -/
theorem Moves.cursorFor_le {event : Event ι} (h : Moves ids cats event cats') (peer : ServerId)
    (i : ι) : (cats i).cursorFor peer ≤ (cats' i).cursorFor peer := by
  let related := fun c c' : Catalog => c.cursorFor peer ≤ c'.cursorFor peer
  have hrefl : ∀ c, related c c := fun _ => UInt64.le_refl _
  cases h with
  | @write node calls notify c renews cursors =>
      have hcursor : c.cursorFor peer = (cats node).cursorFor peer := by
        rw [Catalog.cursorFor, cursors, Catalog.cursorFor]
      exact update_relates related hrefl (UInt64.le_of_eq hcursor.symm) i
  | @exchange source target c apart pulls =>
      have hcursor : (cats target).cursorFor peer ≤ c.cursorFor peer := by
        by_cases hpeer : peer = ids source
        · exact hpeer ▸ pulls.cursor_le
        · exact UInt64.le_of_eq (pulls.cursor_of_ne peer hpeer).symm
      exact update_relates related hrefl hcursor i
  | outside => exact hrefl _

/-- A writer moves the catalog of its own node only. -/
theorem Moves.eq_of_ne {node i : ι} {calls : List Call} {notify : Bool}
    (h : Moves ids cats (.write node calls notify) cats') (hne : i ≠ node) : cats' i = cats i := by
  cases h with
  | write renews cursors => exact Function.update_of_ne hne ..

/-- Local events move the catalogs of a mesh. -/
theorem Carries.next (h : mesh.Carries ids cats) {event : Event ι} (hlocal : event.isLocal = true)
    (hroom : mesh.HasRoom event) :
    ∃ cats', Carries (mesh.next event) ids cats' ∧ Moves ids cats event cats' := by
  cases event with
  | write node calls notify =>
      have hnode := h.holds node
      have hroom' := hnode.hasRoom_iff.1 hroom
      obtain ⟨c, hholds, hputs⟩ := hnode.write (h.named node) (List.all_eq_true.1 hlocal) hroom'
        notify
      have hrenews := hputs.renews (h.sound node) hroom'
      exact ⟨_, h.update hholds (hrenews.allNamed (h.named node) fun _ _ => And.left),
        .write hrenews hputs.cursors_eq⟩
  | exchange source target =>
      have happart : source ≠ target := of_decide_eq_true hlocal
      obtain ⟨c, hpulls, hcarries, _⟩ := h.exchange happart hroom
      exact ⟨_, hcarries, .exchange happart hpulls⟩
  | outside node clock signal =>
      refine ⟨cats, ?_, .outside⟩
      rw [← Function.update_eq_self node cats]
      exact h.update ((h.holds node).outside clock signal) (h.named node)

/-- What holds of nodes without counters, and is kept by every move, holds of every mesh that local
events lead to. -/
theorem Reachable.carries (inv : (ι → ServerId) → (ι → Catalog) → Prop)
    (hstart : ∀ ids, inv ids fun i => .initial (ids i))
    (hnext : ∀ {mesh : Mesh ι} {ids cats cats' event}, mesh.Carries ids cats → inv ids cats →
      Moves ids cats event cats' → inv ids cats')
    (h : Reachable (fun event => event.isLocal = true) mesh) :
    ∃ ids cats, mesh.Carries ids cats ∧ inv ids cats := by
  induction h with
  | start h hfresh hdistinct => exact ⟨_, _, .start h hfresh hdistinct, hstart _⟩
  | next h event hallowed hroom ih =>
      obtain ⟨ids, cats, hcarries, hinv⟩ := ih
      obtain ⟨cats', hcarries', hmoves⟩ := hcarries.next hallowed hroom
      exact ⟨ids, cats', hcarries', hnext hcarries hinv hmoves⟩

theorem Reachable.exists_carries (h : Reachable (fun event => event.isLocal = true) mesh) :
    ∃ ids cats, mesh.Carries ids cats := by
  obtain ⟨ids, cats, hcarries, _⟩ := h.carries (fun _ _ => True) (fun _ => trivial)
    fun _ _ _ => trivial
  exact ⟨ids, cats, hcarries⟩

/-- Nodes that tell the same agree. -/
theorem Reachable.agree_of_told (h : Reachable (fun event => event.isLocal = true) mesh) {i j : ι}
    (hsame : (mesh.told i).Perm (mesh.told j)) : mesh.Agree i j := by
  obtain ⟨ids, cats, hcarries⟩ := h.exists_carries
  refine hcarries.agree_iff.2 fun k => Option.ext fun value => ?_
  rw [← hcarries.mem_told_iff, ← hcarries.mem_told_iff, hsame.mem_iff]

end Mesh

end CounterMesh
