import CounterMesh.Proofs.Replication.Absorb
import Mathlib.Data.List.Induction

/-!
# What entries leave in place

An entry of a foreign slot is in place once it has been received: the slot holds
its value, and no tombstone stands beside the slot of a node. Entries behind it
can undo the second only, and only if they are about the same counter. A feed
that is absorbed in the order of its etags therefore leaves every counter as its
last foreign entry says, or does not touch it.
-/

namespace CounterMesh.Catalog

variable {c source : Catalog} {own : ServerId} {e : FeedEntry} {entries : List FeedEntry}
variable {group name : String}

/-- The slot holds the value, and its counter is not deleted unless the slot is the tombstone. -/
structure InPlace (c : Catalog) (k : SlotName) (value : Int64) : Prop where
  holds : (c.slot k).map Cell.value = some value
  not_dead : k.serverId ≠ .nil → ¬ c.Dead k.group k.name

theorem InPlace.untouched {c' : Catalog} {k : SlotName} {value : Int64} (h : c.InPlace k value)
    (hsame : Untouched c c' group name) (hof : k.Of group name) : c'.InPlace k value := by
  obtain ⟨rfl, rfl⟩ := hof
  refine ⟨?_, fun hnode => ?_⟩
  · rw [hsame k k.of_self]
    exact h.holds
  · rw [hsame.dead_iff]
    exact h.not_dead hnode

theorem Sound.reserved_sign (hsource : source.Sound) (he : source.slot e.slotName = some e.cell)
    (hnil : e.serverId = .nil) : e.sign = .positive :=
  congrArg SlotName.sign (hsource.eq_tombstone he hnil)

/-- A node knows the entries of its own slots and those that are in place. -/
theorem knows_iff_inPlace (hreserved : e.serverId = .nil → e.sign = .positive) :
    c.knows own e = true ↔ e.serverId = own ∨ c.InPlace e.slotName e.value := by
  rw [knows_iff]
  refine or_congr_right ⟨?_, ?_⟩
  · rintro ⟨hvalue, hne⟩
    refine ⟨hvalue, fun hnode => ?_⟩
    have hnil : e.serverId.isNil = false :=
      Bool.eq_false_iff.2 fun h => hnode ((ServerId.isNil_iff _).1 h)
    rw [hnil] at hne
    exact (isSome_liveId?_iff.1 (Bool.eq_true_of_not_eq_false hne)).not_dead
  · intro h
    refine ⟨h.holds, ?_⟩
    obtain ⟨cell, hcell, _⟩ := Option.map_eq_some_iff.1 h.holds
    by_cases hnil : e.serverId = .nil
    · have htombstone : e.slotName = .tombstone e.group e.name := by
        rw [FeedEntry.slotName, hnil, hreserved hnil]
        rfl
      have hdead : c.Dead e.group e.name := by
        rw [Dead, ← htombstone, hcell]
        rfl
      rw [(ServerId.isNil_iff _).2 hnil]
      exact fun hsome => (isSome_liveId?_iff.1 hsome).not_dead hdead
    · have hsome : (c.liveId? e.group e.name).isSome = true :=
        isSome_liveId?_iff.2 ((live_iff_not_dead hcell).2 (h.not_dead hnil))
      rw [hsome]
      exact fun h => hnil ((ServerId.isNil_iff _).1 h.symm)

theorem receive_of_own (hown : e.serverId = own) : c.receive own e = c :=
  receive_of_knows (knows_iff.2 (.inl hown))

/-- An entry is known, or its slot is written with its value. -/
theorem receive_cases (own : ServerId) (hreserved : e.serverId = .nil → e.sign = .positive) :
    c.knows own e = true ∧ c.receive own e = c ∨
      e.serverId ≠ own ∧ c.receive own e = c.put e.group e.name e.serverId e.sign e.value := by
  cases hknows : c.knows own e with
  | true => exact .inl ⟨rfl, receive_of_knows hknows⟩
  | false =>
      refine .inr ⟨fun hown => ?_, ?_⟩
      · rw [knows_iff.2 (.inl hown)] at hknows
        cases hknows
      · rw [receive_of_not_knows hknows]
        by_cases hnil : e.serverId = .nil
        · rw [Sign.under_nil e.sign hnil, hreserved hnil]
        · rw [Sign.under_node e.sign hnil]

theorem inPlace_receive (hs : c.Sound) (hroom : c.HasRoom 1)
    (hreserved : e.serverId = .nil → e.sign = .positive) (hforeign : e.serverId ≠ own) :
    (c.receive own e).InPlace e.slotName e.value := by
  rcases receive_cases own hreserved with ⟨hknows, hsame⟩ | ⟨_, hput⟩
  · rw [hsame]
    exact ((knows_iff_inPlace hreserved).1 hknows).resolve_left hforeign
  · rw [hput]
    refine ⟨?_, fun hnode => ?_⟩
    · rw [slot_put hs hroom]
      simp [FeedEntry.slotName]
    · have hne : SlotName.tombstone e.group e.name ≠ ⟨e.group, e.name, e.serverId, e.sign⟩ :=
        fun heq => hnode (congrArg SlotName.serverId heq).symm
      have hgone : (c.put e.group e.name e.serverId e.sign e.value).slot
          (.tombstone e.group e.name) = none := by
        rw [slot_put hs hroom, if_neg hne, if_pos rfl]
      rw [Dead, Option.not_isSome_iff_eq_none]
      exact hgone

/-- An entry leaves all other counters as they are. -/
theorem untouched_receive (own : ServerId) (hs : c.Sound) (hroom : c.HasRoom 1)
    (hreserved : e.serverId = .nil → e.sign = .positive) (hother : ¬ e.slotName.Of group name) :
    Untouched c (c.receive own e) group name := by
  rcases receive_cases own hreserved with ⟨_, hsame⟩ | ⟨_, hput⟩
  · rw [hsame]
    exact .refl c group name
  · rw [hput]
    refine untouched_put hs hroom fun ⟨hgroup, hname⟩ => hother ⟨hgroup.symm, hname.symm⟩

theorem renews_receive (own : ServerId) (hs : c.Sound) (hroom : c.HasRoom 1)
    (hsource : source.Sound) (he : source.slot e.slotName = some e.cell) :
    Renews (Imports own source) c (c.receive own e) := by
  have hreserved := hsource.reserved_sign he
  rcases receive_cases own hreserved with ⟨_, hsame⟩ | ⟨hforeign, hput⟩
  · rw [hsame]
    exact .refl c
  · rw [hput]
    refine .put hs hroom ⟨hforeign, ?_⟩ hreserved
    have he' : source.slot ⟨e.group, e.name, e.serverId, e.sign⟩ = some e.cell := he
    rw [he']
    rfl

/-- A slot of a node that holds what the sender holds goes on doing so. -/
theorem Renews.holds {c' : Catalog} {k : SlotName} (h : Renews (Imports own source) c c')
    (hnode : k.serverId ≠ .nil)
    (hk : (c.slot k).map Cell.value = (source.slot k).map Cell.value) :
    (c'.slot k).map Cell.value = (source.slot k).map Cell.value := by
  rcases h.slot k with heq | ⟨cell, hcell, _, _, hvalue⟩ | ⟨_, ht, _⟩
  · rw [heq, hk]
  · rw [hcell, hvalue]
    rfl
  · exact absurd (congrArg SlotName.serverId ht) hnode

theorem sound_absorb (own : ServerId) (hs : c.Sound) (hroom : c.HasRoom entries.length) :
    (c.absorb own entries).Sound := by
  have hevolves : Evolves False (0 + entries.length) c (c.absorb own entries) :=
    evolves_absorb (.refl 0 c)
  exact hevolves.sound hs (by rwa [Nat.zero_add])

theorem hasRoom_absorb (own : ServerId) {count : Nat}
    (hroom : c.HasRoom (entries.length + count)) : (c.absorb own entries).HasRoom count := by
  have hevolves : Evolves False (0 + entries.length) c (c.absorb own entries) :=
    evolves_absorb (.refl 0 c)
  exact hevolves.hasRoom (by rwa [Nat.zero_add])

/-- What the entries of a feed do to a catalog, up to one of them. -/
structure Absorbed (own : ServerId) (source : Catalog) (entries : List FeedEntry)
    (c c' : Catalog) : Prop where
  /-- The slots that were written are slots of the sender, with its values. -/
  renews : Renews (Imports own source) c c'
  /-- The foreign slots of nodes hold the values of their entries. -/
  holds : ∀ e ∈ entries, e.serverId ≠ .nil → e.serverId ≠ own →
    (c'.slot e.slotName).map Cell.value = some e.value
  /-- The last foreign entry of a counter is in place, if there is one. -/
  counter : ∀ group name,
    Untouched c c' group name ∧
        (∀ e ∈ entries, e.slotName.Of group name → e.serverId = own) ∨
      ∃ e ∈ entries, e.slotName.Of group name ∧ e.serverId ≠ own ∧
        c'.InPlace e.slotName e.value ∧
        ∀ e' ∈ entries, e'.slotName.Of group name → e'.serverId ≠ own → e'.etag ≤ e.etag

theorem absorbed_absorb (own : ServerId) (hs : c.Sound) (hroom : c.HasRoom entries.length)
    (hsource : source.Sound) (hsorted : entries.Pairwise fun e e' => e.etag < e'.etag)
    (hentries : ∀ e ∈ entries, source.slot e.slotName = some e.cell) :
    Absorbed own source entries c (c.absorb own entries) := by
  induction entries using List.reverseRecOn with
  | nil => exact ⟨.refl c, nofun, fun group name => .inl ⟨.refl c group name, nofun⟩⟩
  | append_singleton front e ih =>
      rw [List.length_append, List.length_singleton] at hroom
      rw [List.pairwise_append] at hsorted
      have hfront := ih (hroom.mono (by omega)) hsorted.1
        fun e' he' => hentries e' (List.mem_append_left _ he')
      have he : source.slot e.slotName = some e.cell :=
        hentries e (List.mem_append_right _ List.mem_cons_self)
      have hreserved := hsource.reserved_sign he
      have hs' := sound_absorb own hs (hroom.mono (Nat.le_add_right _ 1))
      have hroom' := hasRoom_absorb own hroom
      have hlast := renews_receive own hs' hroom' hsource he
      rw [absorb_append, absorb_cons, absorb_nil]
      constructor
      case renews => exact hfront.renews.trans hlast
      case holds =>
        intro e' he' hnode hforeign
        rcases List.mem_append.1 he' with he' | he'
        · have hsame : source.slot e'.slotName = some e'.cell :=
            hentries e' (List.mem_append_left _ he')
          have hkept := hlast.holds (k := e'.slotName) hnode
          rw [hsame] at hkept
          exact hkept (hfront.holds e' he' hnode hforeign)
        · obtain rfl := List.mem_singleton.1 he'
          exact (inPlace_receive hs' hroom' hreserved hforeign).holds
      case counter =>
        intro group name
        by_cases hof : e.slotName.Of group name ∧ e.serverId ≠ own
        · refine .inr ⟨e, List.mem_append_right _ List.mem_cons_self, hof.1, hof.2,
            inPlace_receive hs' hroom' hreserved hof.2, fun e' he' _ _ => ?_⟩
          rcases List.mem_append.1 he' with he' | he'
          · exact UInt64.le_of_lt (hsorted.2.2 e' he' e List.mem_cons_self)
          · rw [List.mem_singleton.1 he']
            exact UInt64.le_refl _
        · -- The entry leaves the counter as the entries before have left it.
          have hsame : Untouched (c.absorb own front) ((c.absorb own front).receive own e)
              group name := by
            by_cases hown : e.serverId = own
            · rw [receive_of_own hown]
              exact .refl _ group name
            · exact untouched_receive own hs' hroom' hreserved fun h => hof ⟨h, hown⟩
          have hskip : ∀ e' ∈ front ++ [e], e'.slotName.Of group name → e'.serverId ≠ own →
              e' ∈ front := by
            intro e' he' hof' hforeign
            refine (List.mem_append.1 he').resolve_right fun he' => ?_
            rw [List.mem_singleton.1 he'] at hof' hforeign
            exact hof ⟨hof', hforeign⟩
          rcases hfront.counter group name with ⟨huntouched, hown⟩ |
            ⟨e', he', hof', hforeign, hplace, hnewest⟩
          · refine .inl ⟨huntouched.trans hsame, fun e' he' hof' => ?_⟩
            by_contra hforeign
            exact hforeign (hown e' (hskip e' he' hof' hforeign) hof')
          · refine .inr ⟨e', List.mem_append_left _ he', hof', hforeign, ?_, ?_⟩
            · exact hplace.untouched hsame hof'
            · exact fun e'' he'' hof'' hforeign'' =>
                hnewest e'' (hskip e'' he'' hof'' hforeign'') hof'' hforeign''

end CounterMesh.Catalog
