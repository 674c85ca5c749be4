import CounterMesh.Proofs.Replication.Network

/-!
# Two nodes

Two nodes hold slots of each other and tombstones, and nothing else. What a node
has shown to its peer, by the peer's cursor, is in place there; of a tombstone
the peer may instead hold something newer that it has yet to show in turn. This
is kept by local writes on either side and by pulls in either direction, however
they are cut. So after a complete pull each way both nodes hold the same, and
what their cursors have not passed yet needs no further write.
-/

namespace CounterMesh

namespace Catalog

variable {a b : ServerId} {c c' d d' : Catalog}

/-- What node `b`, with the catalog `d`, has of the catalog `c` of node `a`. -/
structure Linked (a b : ServerId) (c d : Catalog) : Prop where
  cursor_le : d.cursorFor a ≤ c.lastEtag
  owner : ∀ k cell, c.slot k = some cell →
    k.serverId = a ∨ k.serverId = b ∨ k.serverId = .nil
  /-- A slot of `a` that was shown holds the same at `b`. -/
  own : ∀ k cell, c.slot k = some cell → k.serverId = a → cell.etag ≤ d.cursorFor a →
    (d.slot k).map Cell.value = some cell.value
  /-- What `a` holds of `b` comes from there. -/
  foreign : ∀ k cell, c.slot k = some cell → k.serverId = b → ∃ cell', d.slot k = some cell'
  /-- A tombstone that was shown is in place, or `b` has news of the counter for `a`. -/
  tombstone : ∀ group name cell, c.slot (.tombstone group name) = some cell →
    cell.etag ≤ d.cursorFor a →
      (d.slot (.tombstone group name)).map Cell.value = some cell.value ∨
        ∃ k cell', k.Of group name ∧ k.serverId ≠ a ∧ d.slot k = some cell' ∧
          c.cursorFor b < cell'.etag

namespace Linked

theorem of_empty (hc : ∀ k, c.slot k = none) (hcursor : d.cursorFor a = 0) : Linked a b c d where
  cursor_le := by
    rw [hcursor]
    exact UInt64.zero_le
  owner := by
    intro k cell hk
    rw [hc] at hk
    cases hk
  own := by
    intro k cell hk
    rw [hc] at hk
    cases hk
  foreign := by
    intro k cell hk
    rw [hc] at hk
    cases hk
  tombstone := by
    intro group name cell hk
    rw [hc] at hk
    cases hk

/-- What `b` has of a tombstone that was shown, it has as long as it leaves the counter alone. -/
theorem tombstone_of_untouched (h : Linked a b c d) {group name : String} {cell : Cell}
    (hsame : Untouched d d' group name) (hk : c.slot (.tombstone group name) = some cell)
    (hle : cell.etag ≤ d.cursorFor a) :
    (d'.slot (.tombstone group name)).map Cell.value = some cell.value ∨
      ∃ k cell', k.Of group name ∧ k.serverId ≠ a ∧ d'.slot k = some cell' ∧
        c.cursorFor b < cell'.etag := by
  rcases h.tombstone group name cell hk hle with hvalue | ⟨k, cell', hof, hforeign, hk', hlt⟩
  · rw [hsame _ (SlotName.of_tombstone ..)]
    exact .inl hvalue
  · exact .inr ⟨k, cell', hof, hforeign, (hsame k hof).trans hk', hlt⟩

/-- A slot of `b` that `b` does not hold is not held by `a`. -/
theorem slot_eq_none (h : Linked a b c d) {k : SlotName} (hown : k.serverId = b)
    (hnone : d.slot k = none) : c.slot k = none := by
  rw [Option.eq_none_iff_forall_ne_some]
  intro cell hk
  obtain ⟨cell', hk'⟩ := h.foreign k cell hk hown
  rw [hnone] at hk'
  cases hk'

/-- There are no slots of a third node. -/
theorem slot_eq_none_of_third (h : Linked a b c d) (hs : c.Sound) {k : SlotName}
    (ha : k.serverId ≠ a) (hb : k.serverId ≠ b) (ht : k ≠ .tombstone k.group k.name) :
    c.slot k = none := by
  rw [Option.eq_none_iff_forall_ne_some]
  intro cell hk
  rcases h.owner k cell hk with hown | hown | hnil
  · exact ha hown
  · exact hb hown
  · exact ht (hs.eq_tombstone hk hnil)

/-- What `a` writes is behind the cursor of `b`. -/
theorem write_source (h : Linked a b c d) (hb : b ≠ .nil) (hab : a ≠ b)
    (hrenews : Renews (fun k _ => k.serverId = a ∨ k.serverId = .nil) c c')
    (hcursors : c'.cursors = c.cursors) : Linked a b c' d where
  cursor_le := UInt64.le_trans h.cursor_le hrenews.lastEtag_le
  owner := by
    intro k cell hk
    by_cases hold : c.slot k = some cell
    · exact h.owner k cell hold
    · exact (hrenews.changed_of_fresh hk hold).2.imp id .inr
  own := by
    intro k cell hk hown hle
    exact h.own k cell (hrenews.slot_of_etag_le hk (UInt64.le_trans hle h.cursor_le)) hown hle
  foreign := by
    intro k cell hk hown
    by_cases hold : c.slot k = some cell
    · exact h.foreign k cell hold hown
    · rcases (hrenews.changed_of_fresh hk hold).2 with ha | hnil
      · exact absurd (ha.symm.trans hown) hab
      · exact absurd (hown.symm.trans hnil) hb
  tombstone := by
    intro group name cell hk hle
    rw [cursorFor, hcursors]
    exact h.tombstone group name cell
      (hrenews.slot_of_etag_le hk (UInt64.le_trans hle h.cursor_le)) hle

/-- What `b` writes leaves the slots of `a` alone, and is news for `a`. -/
theorem write_target (h : Linked a b c d) (ha : a ≠ .nil) (hb : b ≠ .nil) (hab : a ≠ b)
    (hback : c.cursorFor b ≤ d.lastEtag)
    (hrenews : Renews (fun k _ => k.serverId = b ∨ k.serverId = .nil) d d')
    (hcursors : d'.cursors = d.cursors) : Linked a b c d' := by
  have hcursor : d'.cursorFor a = d.cursorFor a := by rw [cursorFor, hcursors, cursorFor]
  have hforeign : ∀ {k : SlotName}, k.serverId = b ∨ k.serverId = .nil → k.serverId ≠ a := by
    rintro k howner rfl
    exact howner.elim hab ha
  constructor
  case cursor_le => exact hcursor ▸ h.cursor_le
  case owner => exact h.owner
  case own =>
    intro k cell hk hown hle
    have hsame : d'.slot k = d.slot k :=
      hrenews.slot_eq (hown ▸ ha) fun _ hchanged => hforeign hchanged hown
    rw [hsame]
    exact h.own k cell hk hown (hcursor ▸ hle)
  case foreign =>
    intro k cell hk hown
    obtain ⟨cell', hk'⟩ := h.foreign k cell hk hown
    exact hrenews.exists_slot (hown ▸ hb) hk'
  case tombstone =>
    intro group name cell hk hle
    rcases hrenews.untouched_or group name with hsame | ⟨k, cell', hof, hk', hlt, howner⟩
    · exact h.tombstone_of_untouched hsame hk (hcursor ▸ hle)
    · exact .inr ⟨k, cell', hof, hforeign howner, hk', UInt64.lt_of_le_of_lt hback hlt⟩

/-- A pull of `b` from `a`. -/
theorem pull_target (h : Linked a b c d) (hs : c.Sound) (ha : a ≠ .nil) (hb : b ≠ .nil)
    (hab : a ≠ b) (hpulls : Pulls b a c d d') : Linked a b c d' where
  cursor_le := by
    rcases hpulls.cursor_cases with heq | hle
    · exact heq ▸ h.cursor_le
    · exact hle
  owner := h.owner
  own := by
    intro k cell hk hown hle
    have hnode : k.serverId ≠ .nil := hown ▸ ha
    by_cases hold : cell.etag ≤ d.cursorFor a
    · have hkept := hpulls.renews.holds hnode
      rw [hk] at hkept
      exact hkept (h.own k cell hk hown hold)
    · refine (hpulls.caught_up k cell ⟨hk, UInt64.not_le.1 hold, hle⟩ hnode).resolve_left ?_
      exact fun hb' => hab (hown.symm.trans hb')
  foreign := by
    intro k cell hk hown
    obtain ⟨cell', hk'⟩ := h.foreign k cell hk hown
    exact hpulls.renews.exists_slot (hown ▸ hb) hk'
  tombstone := by
    intro group name cell hk hle
    rcases hpulls.counter_of_source hs hb hk hle with ⟨hsame, hown⟩ | hvalue
    · have hold : cell.etag ≤ d.cursorFor a := by
        by_contra hnew
        exact hb (hown _ _ (SlotName.of_tombstone ..) ⟨hk, UInt64.not_le.1 hnew, hle⟩).symm
      exact h.tombstone_of_untouched hsame hk hold
    · exact .inl hvalue

/-- A pull of `a` from `b`. -/
theorem pull_source (h : Linked a b c d) (hback : Linked b a d c) (hs : d.Sound)
    (hpulls : Pulls a b d c c') : Linked a b c' d := by
  have himported : ∀ {k value}, Imports a d k value → ∃ cell, d.slot k = some cell := by
    rintro k value ⟨_, hvalue⟩
    obtain ⟨cell, hk, _⟩ := Option.map_eq_some_iff.1 hvalue
    exact ⟨cell, hk⟩
  constructor
  case cursor_le => exact UInt64.le_trans h.cursor_le hpulls.renews.lastEtag_le
  case owner =>
    intro k cell hk
    by_cases hold : c.slot k = some cell
    · exact h.owner k cell hold
    · obtain ⟨cell', hk'⟩ := himported (hpulls.renews.changed_of_fresh hk hold).2
      rcases hback.owner k cell' hk' with hb | ha | hnil
      · exact .inr (.inl hb)
      · exact .inl ha
      · exact .inr (.inr hnil)
  case own =>
    intro k cell hk hown hle
    have hold := hpulls.renews.slot_of_etag_le hk (UInt64.le_trans hle h.cursor_le)
    exact h.own k cell hold hown hle
  case foreign =>
    intro k cell hk hown
    by_cases hold : c.slot k = some cell
    · exact h.foreign k cell hold hown
    · exact himported (hpulls.renews.changed_of_fresh hk hold).2
  case tombstone =>
    intro group name cell hk hle
    have hold := hpulls.renews.slot_of_etag_le hk (UInt64.le_trans hle h.cursor_le)
    rcases hpulls.counter_of_target hs hk with ⟨_, hown⟩ | hvalue
    · refine (h.tombstone group name cell hold hle).imp id ?_
      rintro ⟨k, cell', hof, hforeign, hk', hlt⟩
      refine ⟨k, cell', hof, hforeign, hk', ?_⟩
      -- News that the cursor had passed would belong to `a`.
      by_contra hpassed
      exact hforeign (hown k cell' hof ⟨hk', hlt, UInt64.not_lt.1 hpassed⟩)
    · exact .inl hvalue

end Linked

/-- The cursor of `d` has passed all slots of the catalog `c` of node `a`. -/
def Seen (a : ServerId) (c d : Catalog) : Prop :=
  ∀ k cell, c.slot k = some cell → cell.etag ≤ d.cursorFor a

/-- Both catalogs hold the same, and what the cursor of `d` has not passed yet needs no write:
slots of `b` and tombstones. -/
structure Settled (a b : ServerId) (c d : Catalog) : Prop where
  same : c.SameValues d
  echo : ∀ k cell, c.slot k = some cell → d.cursorFor a < cell.etag →
    k.serverId = b ∨ k.serverId = .nil

section Complete

variable (h : Linked a b c d) (hback : Linked b a d c) (hd : d.Sound)
variable (ha : a ≠ .nil) (hb : b ≠ .nil) (hab : a ≠ b)
variable (hpulls : Pulls a b d c c') (hseen : Seen a c d) (hseen' : Seen b d c')

include h hback ha hpulls hseen

/-- Once `b` has seen all of `a`, a pull of `a` from `b` leaves the slots of `a` equal. -/
theorem Linked.own_eq {k : SlotName} (hown : k.serverId = a) :
    (c'.slot k).map Cell.value = (d.slot k).map Cell.value := by
  have hsame : c'.slot k = c.slot k :=
    hpulls.renews.slot_eq (hown ▸ ha) fun _ himports => himports.1 hown
  rw [hsame]
  cases hk : c.slot k with
  | some cell => exact (h.own k cell hk hown (hseen k cell hk)).symm
  | none => rw [hback.slot_eq_none hown hk]

include hd hseen'

/-- After both pulls a counter is deleted on both sides, with the same tombstone, or on none. -/
theorem Linked.tombstone_eq (group name : String) :
    (c'.slot (.tombstone group name)).map Cell.value =
      (d.slot (.tombstone group name)).map Cell.value := by
  cases hk : d.slot (.tombstone group name) with
  | some cell =>
      rcases hpulls.counter_of_source hd ha hk (hseen' _ cell hk) with ⟨hsame, hown⟩ | hvalue
      · have hold : cell.etag ≤ c.cursorFor b := by
          by_contra hnew
          exact ha (hown _ _ (SlotName.of_tombstone ..)
            ⟨hk, UInt64.not_le.1 hnew, hseen' _ cell hk⟩).symm
        rw [hsame _ (SlotName.of_tombstone ..)]
        refine (hback.tombstone group name cell hk hold).resolve_right ?_
        rintro ⟨k, cell', _, _, hk', hlt⟩
        exact absurd (hseen k cell' hk') (UInt64.not_le.2 hlt)
      · exact hvalue
  | none =>
      cases hk' : c'.slot (.tombstone group name) with
      | none => rfl
      | some cell =>
          rcases hpulls.counter_of_target hd hk' with ⟨hsame, hown⟩ | hvalue
          · have hold := (hsame _ (SlotName.of_tombstone ..)).symm.trans hk'
            rcases h.tombstone group name cell hold (hseen _ cell hold) with
              hvalue | ⟨k, cell', hof, hforeign, hcell', hlt⟩
            · rw [hk] at hvalue
              cases hvalue
            · exact absurd (hown k cell' hof ⟨hcell', hlt, hseen' k cell' hcell'⟩) hforeign
          · rw [hk] at hvalue
            cases hvalue

include hb hab

/-- After a complete pull each way both nodes are settled. -/
theorem Linked.settled (hc' : c'.Sound) : Settled a b c' d ∧ Settled b a d c' := by
  have h' : Linked a b c' d := h.pull_source hback hd hpulls
  have hback' : Linked b a d c' := hback.pull_target hd hb ha (Ne.symm hab) hpulls
  have hsame : c'.SameValues d := by
    intro k
    by_cases hka : k.serverId = a
    · exact h.own_eq hback ha hpulls hseen hka
    · by_cases hkb : k.serverId = b
      · cases hk : d.slot k with
        | some cell => exact hback'.own k cell hk hkb (hseen' k cell hk)
        | none => rw [h'.slot_eq_none hkb hk]
      · by_cases ht : k = .tombstone k.group k.name
        · rw [ht]
          exact h.tombstone_eq hback hd ha hpulls hseen hseen' k.group k.name
        · rw [h'.slot_eq_none_of_third hc' hka hkb ht, hback'.slot_eq_none_of_third hd hkb hka ht]
  refine ⟨⟨hsame, fun k cell hk hlt => ?_⟩, ⟨hsame.symm, fun k cell hk hlt => ?_⟩⟩
  · have hfresh : c.slot k ≠ some cell :=
      fun hold => absurd (hseen k cell hold) (UInt64.not_le.2 hlt)
    have himports := (hpulls.renews.changed_of_fresh hk hfresh).2
    exact (h'.owner k cell hk).resolve_left himports.1
  · exact absurd (hseen' k cell hk) (UInt64.not_le.2 hlt)

end Complete

/-- A settled node has nothing to take. -/
theorem Settled.inPlace (h : Settled a b c d) {upTo : Etag} {k : SlotName} {cell : Cell}
    (hk : c.Passed (d.cursorFor a) upTo k cell) : k.serverId = b ∨ d.InPlace k cell.value := by
  refine (h.echo k cell hk.slot hk.since_lt).imp id fun hnil => ⟨?_, fun hnode => ?_⟩
  · rw [← h.same, hk.slot]
    rfl
  · exact absurd hnil hnode

/-- Nodes stay settled while only cursors move on. -/
theorem Settled.cursors (h : Settled a b c d) (hc : c'.slot = c.slot) (hd : d'.slot = d.slot)
    (hle : d.cursorFor a ≤ d'.cursorFor a) : Settled a b c' d' where
  same := by
    intro k
    rw [hc, hd]
    exact h.same k
  echo := by
    intro k cell hk hlt
    rw [hc] at hk
    exact h.echo k cell hk (UInt64.lt_of_le_of_lt hle hlt)

end Catalog

namespace Mesh

variable {mesh : Mesh (Fin 2)} {ids : Fin 2 → ServerId} {cats cats' : Fin 2 → Catalog}
variable {i j : Fin 2}

/-- Every two nodes of the mesh are linked. -/
def AllLinked (ids : Fin 2 → ServerId) (cats : Fin 2 → Catalog) : Prop :=
  ∀ i j, i ≠ j → Catalog.Linked (ids i) (ids j) (cats i) (cats j)

private theorem eq_or_eq (hij : i ≠ j) (m : Fin 2) : m = i ∨ m = j := by omega

theorem AllLinked.moves {event : Event (Fin 2)} (h : AllLinked ids cats)
    (hcarries : mesh.Carries ids cats) (hmoves : Moves ids cats event cats') :
    AllLinked ids cats' := by
  intro i j hij
  have hi := hcarries.ids_ne_nil i
  have hj := hcarries.ids_ne_nil j
  have hne := hcarries.distinct.ne hij
  cases hmoves with
  | @write node calls notify c renews cursors =>
      have howner : ∀ k (_ : Int64), Call.Touched (ids node) calls k →
          k.serverId = ids node ∨ k.serverId = .nil := by
        rintro k _ ⟨_, call, _, htouches⟩
        exact Call.owner_of_touches htouches
      rcases eq_or_eq hij node with rfl | rfl
      · rw [Function.update_self, Function.update_of_ne (Ne.symm hij)]
        exact (h node j hij).write_source hj hne (renews.mono howner) cursors
      · rw [Function.update_self, Function.update_of_ne hij]
        exact (h i node hij).write_target hi hj hne (h node i (Ne.symm hij)).cursor_le
          (renews.mono howner) cursors
  | @exchange source target c apart pulls =>
      rcases eq_or_eq hij target with rfl | rfl
      · obtain rfl := (eq_or_eq hij source).resolve_left apart
        rw [Function.update_self, Function.update_of_ne apart]
        exact (h target source hij).pull_source (h source target apart) (hcarries.sound source)
          pulls
      · obtain rfl := (eq_or_eq hij source).resolve_right apart
        rw [Function.update_self, Function.update_of_ne hij]
        exact (h source target hij).pull_target (hcarries.sound source) hi hj hne pulls
  | outside => exact h i j hij

theorem Reachable.allLinked (h : Reachable (fun event => event.isLocal = true) mesh) :
    ∃ ids cats, mesh.Carries ids cats ∧ AllLinked ids cats :=
  h.carries AllLinked (fun _ _ _ _ => .of_empty (fun _ => rfl) rfl)
    fun hcarries h hmoves => h.moves hcarries hmoves

/-- All nodes of the mesh are settled. -/
def AllSettled (ids : Fin 2 → ServerId) (cats : Fin 2 → Catalog) : Prop :=
  ∀ i j, i ≠ j → Catalog.Settled (ids i) (ids j) (cats i) (cats j)

/-- An exchange between settled nodes applies nothing, and leaves them settled. -/
theorem AllSettled.exchange (h : AllSettled ids cats) (hcarries : mesh.Carries ids cats)
    (hij : i ≠ j) (hroom : mesh.HasRoom (.exchange i j)) :
    mesh.applied i j = some 0 ∧
      ∃ cats', Carries (mesh.next (.exchange i j)) ids cats' ∧ AllSettled ids cats' := by
  obtain ⟨d, hpulls, hcarries', hiff, hcursors⟩ := hcarries.exchange hij hroom
  have happlied : mesh.applied i j = some 0 := hiff.2 fun k cell hk => (h i j hij).inPlace hk
  have hslot : d.slot = (cats j).slot := by
    rw [hcursors happlied]
    rfl
  refine ⟨happlied, _, hcarries', fun m n hmn => ?_⟩
  rcases eq_or_eq hij n with rfl | rfl
  · obtain rfl := (eq_or_eq hij m).resolve_left hmn
    rw [Function.update_self, Function.update_of_ne hij]
    exact (h m n hmn).cursors hslot rfl (UInt64.le_refl _)
  · obtain rfl := (eq_or_eq hij m).resolve_right hmn
    rw [Function.update_self, Function.update_of_ne hij]
    exact (h m n hmn).cursors rfl hslot hpulls.cursor_le

/-- Pulls leave settled nodes settled. -/
theorem Leads.settled {mesh' : Mesh (Fin 2)}
    (h : Leads (fun _ event => event.isPull = true) mesh mesh') (hcarries : mesh.Carries ids cats)
    (hsettled : AllSettled ids cats) : ∃ cats', mesh'.Carries ids cats' ∧ AllSettled ids cats' := by
  induction h with
  | refl => exact ⟨cats, hcarries, hsettled⟩
  | next h event hallowed hroom ih =>
      obtain ⟨cats', hcarries', hsettled'⟩ := ih
      cases event with
      | write node calls notify => cases hallowed
      | exchange source target =>
          exact (hsettled'.exchange hcarries' (of_decide_eq_true hallowed) hroom).2
      | outside node clock signal =>
          have hlocal : Event.isLocal (.outside node clock signal : Event (Fin 2)) = true := rfl
          obtain ⟨_, hcarries'', hmoves⟩ := hcarries'.next hlocal hroom
          cases hmoves with
          | outside => exact ⟨cats', hcarries'', hsettled'⟩

/-- A complete exchange leaves no entry behind the cursor. -/
theorem Carries.seen (h : mesh.Carries ids cats)
    (h' : Carries (mesh.next (.exchange i j)) ids cats') (hcomplete : mesh.Completes i j) :
    Catalog.Seen (ids i) (cats i) (cats' j) := by
  intro k cell hk
  by_contra hlt
  have hmem := (h.mem_left_iff h' hcomplete.left).2 ⟨hk, UInt64.not_le.1 hlt⟩
  cases hmem

/-- Whatever two nodes have written and deleted by themselves, and however often they have pulled
from each other: after a complete exchange each way they agree on everything, and no later
exchange between them applies anything. -/
theorem agree_of_exchanges (h : Reachable (fun event => event.isLocal = true) mesh) (hij : i ≠ j)
    (hfirst : mesh.Completes i j) (hsecond : (mesh.next (.exchange i j)).Completes j i) :
    ((mesh.next (.exchange i j)).next (.exchange j i)).Agree i j ∧
      ∀ mesh', Leads (fun _ event => event.isPull = true)
        ((mesh.next (.exchange i j)).next (.exchange j i)) mesh' →
          ∀ source target, source ≠ target → mesh'.HasRoom (.exchange source target) →
            mesh'.applied source target = some 0 := by
  obtain ⟨ids, cats, hcarries, hlinked⟩ := h.allLinked
  obtain ⟨d, hpulls, hcarries₁, _⟩ := hcarries.exchange hij hfirst.room
  have hlinked₁ := hlinked.moves hcarries (.exchange hij hpulls)
  have hseen := hcarries.seen hcarries₁ hfirst
  rw [← Function.update_of_ne hij d cats] at hseen
  generalize Function.update cats j d = cats₁ at hcarries₁ hlinked₁ hseen
  obtain ⟨c, hpulls₁, hcarries₂, _⟩ := hcarries₁.exchange (Ne.symm hij) hsecond.room
  have hseen' := hcarries₁.seen hcarries₂ hsecond
  rw [Function.update_self] at hseen'
  have hsound := hcarries₂.sound i
  rw [Function.update_self] at hsound
  obtain ⟨hsettled, hsettled'⟩ := (hlinked₁ i j hij).settled (hlinked₁ j i (Ne.symm hij))
    (hcarries₁.sound j) (hcarries.ids_ne_nil i) (hcarries.ids_ne_nil j)
    (hcarries.distinct.ne hij) hpulls₁ hseen hseen' hsound
  have hall : AllSettled ids (Function.update cats₁ i c) := by
    intro m n hmn
    rcases eq_or_eq hij n with rfl | rfl
    · obtain rfl := (eq_or_eq hij m).resolve_left hmn
      rw [Function.update_self, Function.update_of_ne hmn]
      exact hsettled'
    · obtain rfl := (eq_or_eq hij m).resolve_right hmn
      rw [Function.update_self, Function.update_of_ne (Ne.symm hmn)]
      exact hsettled
  refine ⟨hcarries₂.agree_iff.2 (hall i j hij).same, fun mesh' hleads s t hst hroom => ?_⟩
  obtain ⟨cats', hcarries', hsettled⟩ := hleads.settled hcarries₂ hall
  exact (hsettled.exchange hcarries' hst hroom).1

/-- The second node deletes the counter while the first adds nothing to it, and has shown its reset
but not its tombstone when both pull to the end: the counter stays live on both. -/
theorem agree_of_concurrent_deletion : ∃ mesh : Mesh (Fin 2),
    Reachable (fun event => event.isLocal = true) mesh ∧
      Index.totalOf (mesh 0).engine.snapshot "group" "name" = .ok 0 ∧
      Index.liveId? (mesh 1).engine.snapshot "group" "name" = .ok none ∧
      mesh.Completes 0 1 ∧ (mesh.next (.exchange 0 1)).Completes 1 0 ∧
      ((mesh.next (.exchange 0 1)).next (.exchange 1 0)).Agree 0 1 ∧
      Index.totalOf ((mesh.next (.exchange 0 1)).next (.exchange 1 0) 1).engine.snapshot
        "group" "name" = .ok 0 := by
  have hnodes : Reachable (fun event => event.isLocal = true)
      (nodes 2 slowConfig rfl (by decide)) := .nodes rfl (by decide)
  obtain ⟨mesh, hreachable, hfirst, hsecond, hcomplete, hcomplete', hlive⟩ := hnodes.exists_of_run
    [add 0 3, .exchange 0 1, remove 1, add 0 0, .exchange 1 0, .exchange 1 0, hold 0, hold 1]
    (fun mesh =>
      Index.totalOf (mesh 0).engine.snapshot "group" "name" = .ok 0 ∧
      Index.liveId? (mesh 1).engine.snapshot "group" "name" = .ok none ∧
      mesh.Completes 0 1 ∧ (mesh.next (.exchange 0 1)).Completes 1 0 ∧
      Index.totalOf ((mesh.next (.exchange 0 1)).next (.exchange 1 0) 1).engine.snapshot
        "group" "name" = .ok 0) (by decide +kernel)
  have hagree := agree_of_exchanges hreachable (by decide) hcomplete hcomplete'
  exact ⟨mesh, hreachable, hfirst, hsecond, hcomplete, hcomplete', hagree.1, hlive⟩

end Mesh

end CounterMesh
