import CounterMesh.Proofs.Store.Follows
import CounterMesh.Proofs.Store.Renewal
import CounterMesh.Store.Write

/-!
# Operations on a catalog

What the operations of a writer do to the catalog of its trees. A store and a
replicated write are one write of a slot; a reset and a deletion are made of
them. Whether an operation answers or fails half-way, the catalog it leaves has
evolved from the one before.
-/

namespace CounterMesh

/-- The trees of the writer present a catalog that evolved from `c` with at most `k` writes. Its
counters have names if those of `c` have. -/
def Session.Reached (s : Session) (home : Node) (purge : Prop) (c : Catalog) (k : Nat) : Prop :=
  ∃ c', Catalog.Evolves purge k c c' ∧ (c.AllNamed → c'.AllNamed) ∧ s.Shows home c'.ledger

/-- The trees of the writer present a catalog that comes from `c` by at most `k` writes of slots
that are allowed. -/
def Session.Wrote (s : Session) (home : Node) (allowed : SlotName → Prop) (c : Catalog) (k : Nat) :
    Prop :=
  ∃ c', Catalog.Puts allowed k c c' ∧ s.Shows home c'.ledger

namespace Session.Wrote

variable {s : Session} {home : Node} {allowed : SlotName → Prop} {c : Catalog} {k k' : Nat}

theorem mono (h : s.Wrote home allowed c k) (hle : k ≤ k') : s.Wrote home allowed c k' := by
  obtain ⟨c', hputs, hshows⟩ := h
  exact ⟨c', hputs.mono hle, hshows⟩

theorem reached (h : s.Wrote home allowed c k) (hs : c.Sound) (hroom : c.HasRoom k)
    (hallowed : c.AllNamed → ∀ k, allowed k → Named k.group k.name) (purge : Prop) :
    s.Reached home purge c k := by
  obtain ⟨c', hputs, hshows⟩ := h
  exact ⟨c', hputs.evolves, fun hn => (hputs.renews hs hroom).allNamed hn fun k _ => hallowed hn k,
    hshows⟩

end Session.Wrote

namespace Sign

/-- The sign of the slot that a replicated write goes to: a tombstone has one sign only. -/
def under (serverId : ServerId) (sign : Sign) : Sign := if serverId.isNil then .positive else sign

theorem under_nil {serverId : ServerId} (sign : Sign) (h : serverId = .nil) :
    under serverId sign = .positive := by
  rw [under, if_pos ((ServerId.isNil_iff serverId).2 h)]

theorem under_node {serverId : ServerId} (sign : Sign) (h : serverId ≠ .nil) :
    under serverId sign = sign := by
  rw [under, if_neg fun hnil => h ((ServerId.isNil_iff serverId).1 hnil)]

end Sign

/-- Which name of a counter is missing. -/
def nameFault? (group name : String) : Option ArgumentFault :=
  if group.isEmpty then some .emptyGroup else if name.isEmpty then some .emptyName else none

theorem nameFault?_eq_none_iff {group name : String} :
    nameFault? group name = none ↔ Named group name := by
  rw [nameFault?, Named]
  cases group.isEmpty <;> cases name.isEmpty <;> simp

namespace Write

variable {s : Session} {home : Node} {c : Catalog} {group name : String}

theorem returns_checkNames (h : Named group name) :
    Returns (checkNames group name) s fun _ s' => s' = s :=
  ⟨(), s, by simp only [checkNames, h.1, h.2]; rfl, rfl⟩

theorem refuses_checkNames {fault : ArgumentFault} (h : nameFault? group name = some fault) :
    Refuses (checkNames group name) s (.counter (.invalidArgument fault)) := by
  rw [nameFault?] at h
  cases hgroup : group.isEmpty with
  | true =>
      rw [hgroup] at h
      cases h
      simp only [Refuses, checkNames, hgroup]
      rfl
  | false =>
      cases hname : name.isEmpty with
      | true =>
          rw [hgroup, hname] at h
          cases h
          simp only [Refuses, checkNames, hgroup, hname]
          rfl
      | false =>
          rw [hgroup, hname] at h
          cases h

theorem checkNames_ends (group name : String) :
    Ends (checkNames group name) s (fun _ s' => Named group name ∧ s' = s)
      fun s' => ¬ Named group name ∧ s' = s := by
  cases hfault : nameFault? group name with
  | none =>
      have hnamed := nameFault?_eq_none_iff.1 hfault
      exact .inl ((returns_checkNames hnamed).mono fun _ _ heq => ⟨hnamed, heq⟩)
  | some fault =>
      have hunnamed : ¬ Named group name := by
        rw [← nameFault?_eq_none_iff, hfault]
        nofun
      exact .inr ⟨_, (refuses_checkNames hfault).fails ⟨hunnamed, rfl⟩⟩

/-- A store adds the size of the delta to the slot of this node for its sign, and tells whether the
counter was live; it is refused if a name is empty or the delta has no size. -/
theorem store_ends (h : s.Shows home c.ledger) (hs : c.Sound) (hroom : c.HasRoom 1)
    (hnode : home.serverId ≠ .nil) (group name : String) (delta : Int64) :
    Ends (store group name delta) s
      (fun action s' => (Named group name ∧ delta ≠ Int64.minValue) ∧
        (∃ existed, (existed = true ↔ c.Live group name) ∧
          action = actionOf existed (Sign.ofDelta delta)) ∧
        s'.Shows home (c.put group name home.serverId (Sign.ofDelta delta)
          ((c.valueAt (c.placeFor group name home.serverId (Sign.ofDelta delta))).getD 0 +
            delta.abs)).ledger)
      fun s' => ¬ (Named group name ∧ delta ≠ Int64.minValue) ∧ s' = s := by
  rcases checkNames_ends (s := s) group name with hcheck | ⟨e, s', hcheck, hrefused, rfl⟩
  · by_cases hdelta : delta = Int64.minValue
    · refine .inr ⟨.counter (.deltaOutOfRange delta), hcheck.bind_fails ?_⟩
      rintro _ _ ⟨_, rfl⟩
      rw [if_pos hdelta]
      exact Fails.bind ⟨_, rfl, fun haccepted => haccepted.2 hdelta, rfl⟩
    · refine .inl (hcheck.bind ?_)
      rintro _ _ ⟨hnamed, rfl⟩
      simp only [hdelta, if_false]
      refine returns_serverId.bind ?_
      rintro _ _ ⟨rfl, rfl⟩
      rw [h.serverId_eq]
      refine (returns_merge_node h hs hroom group name hnode _ (by simp)).bind ?_
      rintro existed s₁ ⟨hexisted, h₁⟩
      refine (returns_record _).bind ?_
      rintro _ _ rfl
      exact .pure ⟨⟨hnamed, hdelta⟩, ⟨existed, hexisted, rfl⟩, h₁.withChanges _⟩
  · exact .inr ⟨e, Fails.bind ⟨_, hcheck, fun haccepted => hrefused haccepted.1, rfl⟩⟩

/-- A replicated write puts the value into the slot of its server, and tells whether the counter was
live unless it deletes it; it is refused if a name is empty. -/
theorem storeReplicated_acts (h : s.Shows home c.ledger) (hs : c.Sound) (hroom : c.HasRoom 1)
    (group name : String) (serverId : ServerId) (sign : Sign) (value : Int64) :
    Ends (storeReplicated group name serverId sign value) s
      (fun action s' => Named group name ∧
        (∃ existed, (existed = true ↔ c.Live group name) ∧
          action = if serverId = .nil then .delete else actionOf existed (Sign.ofDelta value)) ∧
        s'.Shows home (c.put group name serverId (sign.under serverId) value).ledger)
      fun s' => ¬ Named group name ∧ s' = s := by
  rcases checkNames_ends (s := s) group name with hcheck | ⟨e, hcheck⟩
  · refine .inl (hcheck.bind ?_)
    rintro _ _ ⟨hnamed, rfl⟩
    by_cases hserver : serverId = .nil
    · have howner : Owner.ofServer serverId = .tombstone := by
        rw [Owner.ofServer, if_pos ((ServerId.isNil_iff serverId).2 hserver)]
      rw [howner, Sign.under_nil sign hserver, hserver]
      refine (returns_merge_tombstone h hs hroom group name value).bind ?_
      rintro existed s₁ ⟨hexisted, h₁⟩
      rw [pure_bind]
      refine (returns_record _).bind ?_
      rintro _ _ rfl
      exact .pure ⟨hnamed, ⟨existed, hexisted, (if_pos rfl).symm⟩, h₁.withChanges _⟩
    · have howner : Owner.ofServer serverId = .node serverId := by
        rw [Owner.ofServer, if_neg fun hnil => hserver ((ServerId.isNil_iff serverId).1 hnil)]
      rw [howner, Sign.under_node sign hserver]
      refine (returns_merge_node h hs hroom group name hserver sign (by simp)).bind ?_
      rintro existed s₁ ⟨hexisted, h₁⟩
      rw [pure_bind]
      refine (returns_record _).bind ?_
      rintro _ _ rfl
      exact .pure ⟨hnamed, ⟨existed, hexisted, (if_neg hserver).symm⟩, h₁.withChanges _⟩
  · exact .inr ⟨e, hcheck.bind⟩

theorem storeReplicated_ends (h : s.Shows home c.ledger) (hs : c.Sound) (hroom : c.HasRoom 1)
    (group name : String) (serverId : ServerId) (sign : Sign) (value : Int64) :
    Ends (storeReplicated group name serverId sign value) s
      (fun _ s' => Named group name ∧
        s'.Shows home (c.put group name serverId (sign.under serverId) value).ledger)
      fun s' => ¬ Named group name ∧ s' = s :=
  (storeReplicated_acts h hs hroom group name serverId sign value).mono
    (fun _ _ h' => ⟨h'.1, h'.2.2⟩) fun _ => id

section Local

variable {allowed : SlotName → Prop} {k : Nat}

theorem returns_checkLive (h : s.Shows home c.ledger) (hlive : c.Live group name) :
    Returns (checkLive group name) s fun _ s' => s' = s := by
  obtain ⟨id, hid, hnot⟩ := hlive
  have hquery : Index.liveId s.writer.transaction group name = .ok id := by
    rw [Index.liveId, Catalog.index_liveId? h.trees,
      (c.liveId?_eq_some_iff group name).2 ⟨hid, hnot⟩]
    rfl
  refine (returns_query hquery).bind ?_
  rintro _ _ ⟨rfl, rfl⟩
  exact .pure rfl

theorem refuses_checkLive (h : s.Shows home c.ledger) (hdead : ¬ c.Live group name) :
    Refuses (checkLive group name) s (.counter (.notFound group name)) := by
  have hquery : Index.liveId s.writer.transaction group name =
      .error (.counter (.notFound group name)) := by
    rw [Index.liveId, Catalog.index_liveId? h.trees, (c.liveId?_eq_none_iff group name).2 hdead]
    rfl
  exact (refuses_query hquery).bind

theorem checkLive_ends (h : s.Shows home c.ledger) (group name : String) :
    Ends (checkLive group name) s (fun _ s' => c.Live group name ∧ s' = s)
      fun s' => ¬ c.Live group name ∧ s' = s := by
  by_cases hlive : c.Live group name
  · exact .inl ((returns_checkLive h hlive).mono fun _ _ heq => ⟨hlive, heq⟩)
  · exact .inr ⟨_, (refuses_checkLive h hlive).fails ⟨hlive, rfl⟩⟩

theorem leaves_store (h : s.Wrote home allowed c k) (hs : c.Sound) (hroom : c.HasRoom (k + 1))
    (hnode : home.serverId ≠ .nil) (group name : String)
    (hallowed : Named group name → ∀ sign, allowed ⟨group, name, home.serverId, sign⟩)
    (delta : Int64) :
    Leaves (store group name delta) s fun s' => s'.Wrote home allowed c (k + 1) := by
  obtain ⟨c', hputs, hshows⟩ := h
  have hevolves : Catalog.Evolves False k c c' := hputs.evolves
  refine (store_ends hshows (hevolves.sound hs (hroom.mono (by omega))) (hevolves.hasRoom hroom)
    hnode group name delta).mono ?_ ?_
  · rintro _ s' ⟨⟨hnamed, _⟩, _, h'⟩
    refine ⟨_, hputs.put ⟨group, name, home.serverId, Sign.ofDelta delta⟩ _ ?_ ?_, h'⟩
    · exact hallowed hnamed _
    · exact fun hnil => absurd hnil hnode
  · rintro _ ⟨_, rfl⟩
    exact ⟨c', hputs.mono (by omega), hshows⟩

/-- A reset is at most one store. -/
theorem leaves_resetLive (h : s.Wrote home allowed c k) (hs : c.Sound)
    (hroom : c.HasRoom (k + 1)) (hnode : home.serverId ≠ .nil) (group name : String)
    (hallowed : Named group name → ∀ sign, allowed ⟨group, name, home.serverId, sign⟩) :
    Leaves (resetLive group name) s fun s' => s'.Wrote home allowed c (k + 1) := by
  have hsame : ∀ s', s' = s → s'.Wrote home allowed c (k + 1) := by
    rintro _ rfl
    exact h.mono (by omega)
  refine (leaves_query _).bind hsame ?_
  rintro total _ rfl
  by_cases hzero : total = 0
  · simp only [hzero, if_true]
    exact .pure (hsame _ rfl)
  · simp only [hzero, if_false]
    by_cases hmin : total = Int64.minValue
    · simp only [hmin, if_true]
      exact ((fails_throw _).bind.leaves).mono hsame
    · simp only [hmin, if_false]
      refine (leaves_store h hs hroom hnode group name hallowed (-total)).bind (fun _ => id) ?_
      exact fun _ _ h' => .pure h'

theorem leaves_reset (h : s.Shows home c.ledger) (hs : c.Sound) (hroom : c.HasRoom 1)
    (hnode : home.serverId ≠ .nil) (group name : String)
    (hallowed : Named group name → ∀ sign, allowed ⟨group, name, home.serverId, sign⟩) :
    Leaves (reset group name) s fun s' => s'.Wrote home allowed c 1 := by
  have hwrote : s.Wrote home allowed c 0 := ⟨c, .refl 0 c, h⟩
  refine Ends.bind ((checkLive_ends h group name).mono (fun _ _ => id) ?_) ?_
  · rintro _ ⟨_, rfl⟩
    exact hwrote.mono (Nat.zero_le _)
  · rintro _ _ ⟨_, rfl⟩
    exact leaves_resetLive hwrote hs (by rwa [Nat.zero_add]) hnode group name hallowed

/-- A deletion of a live counter is a reset, which takes two stores for the least total, and a
tombstone. -/
theorem leaves_delete (h : s.Shows home c.ledger) (hs : c.Sound) (hroom : c.HasRoom 3)
    (hnode : home.serverId ≠ .nil) (group name : String)
    (hstores : Named group name → ∀ sign, allowed ⟨group, name, home.serverId, sign⟩)
    (htombstone : c.Live group name → allowed (.tombstone group name)) :
    Leaves (delete group name) s fun s' => s'.Wrote home allowed c 3 := by
  have hwrote : s.Wrote home allowed c 0 := ⟨c, .refl 0 c, h⟩
  have hstore : ∀ {k : Nat} {s₁ : Session}, k < 3 → s₁.Wrote home allowed c k → ∀ delta,
      Leaves (store group name delta) s₁ fun s' => s'.Wrote home allowed c (k + 1) :=
    fun hk h₁ => leaves_store h₁ hs (hroom.mono (by omega)) hnode group name hstores
  have hlast : c.Live group name → ∀ s₁ : Session, s₁.Wrote home allowed c 2 → Leaves (do
      let ticks := ticksOf (← now)
      let _ ← merge group name .tombstone .positive (.tombstone ticks)
      record ⟨group, name, .delete, .nil⟩) s₁ fun s' => s'.Wrote home allowed c 3 := by
    rintro hlive s₁ ⟨c', hputs, h₁⟩
    refine returns_now.bind_leaves ?_
    rintro _ _ ⟨rfl, rfl⟩
    have hevolves : Catalog.Evolves False 2 c c' := hputs.evolves
    have hs' : c'.Sound := hevolves.sound hs (hroom.mono (by omega))
    refine (returns_merge_tombstone (h₁.withClock _) hs' (hevolves.hasRoom hroom) group name
      _).bind_leaves ?_
    rintro _ s₂ ⟨_, h₂⟩
    refine (returns_record _).leaves ?_
    rintro _ _ rfl
    exact ⟨_, hputs.put (.tombstone group name) _ (htombstone hlive) fun _ => rfl,
      h₂.withChanges _⟩
  refine Ends.bind ((checkLive_ends h group name).mono (fun _ _ => id) ?_) ?_
  · rintro _ ⟨_, rfl⟩
    exact hwrote.mono (by omega)
  · rintro _ _ ⟨hlive, rfl⟩
    refine (leaves_query _).bind ?_ ?_
    · rintro _ rfl
      exact hwrote.mono (by omega)
    · rintro total _ rfl
      by_cases hmin : total = Int64.minValue
      · simp only [hmin, if_true]
        refine (hstore (by omega) hwrote _).bind (fun _ h' => h'.mono (by omega)) fun _ s₁ h₁ => ?_
        refine (hstore (by omega) h₁ _).bind (fun _ h' => h'.mono (by omega)) fun _ s₂ h₂ => ?_
        exact hlast hlive s₂ h₂
      · simp only [hmin, if_false]
        refine (leaves_resetLive hwrote hs (hroom.mono (by omega)) hnode group name hstores).bind
          (fun _ h' => h'.mono (by omega)) fun _ s₁ h₁ => ?_
        exact hlast hlive s₁ (h₁.mono (by omega))

end Local

theorem leaves_storeReplicated {purge : Prop} {k : Nat} (h : s.Reached home purge c k)
    (hs : c.Sound) (hroom : c.HasRoom (k + 1)) (group name : String) (serverId : ServerId)
    (sign : Sign) (value : Int64) :
    Leaves (storeReplicated group name serverId sign value) s fun s' =>
      s'.Reached home purge c (k + 1) := by
  obtain ⟨c', hevolves, hn, hshows⟩ := h
  have hs' : c'.Sound := hevolves.sound hs (hroom.mono (by omega))
  have hroom' := hevolves.hasRoom hroom
  refine (storeReplicated_ends hshows hs' hroom' group name serverId sign value).mono ?_ ?_
  · rintro _ s' ⟨hnamed, h'⟩
    exact ⟨_, hevolves.put group name _ _ _ (Sign.under_nil sign),
      fun hc => (hn hc).put hs' hroom' hnamed _ _ _, h'⟩
  · rintro _ ⟨_, rfl⟩
    exact ⟨c', hevolves.mono (by omega), hn, hshows⟩

end Write

end CounterMesh
