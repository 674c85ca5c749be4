import CounterMesh.Proofs.Replication.Pull
import CounterMesh.Proofs.Store.Reading

/-!
# Agreement among catalogs

Nodes hand each other's slots on under etags of their own, so that an old value
can reach a node after a newer one. Between two nodes that do not own a slot
this does no lasting harm: whoever changes it last does so under an etag that
the other has not seen yet. What every two nodes know of each other by their
cursors is an invariant of local writes and of pulls in any order.

Only the owner of a slot stands apart. It never takes its own slot back, so the
nodes agree on everything exactly when every value of an owner is held by
somebody else as well.
-/

namespace CounterMesh.Catalog

variable {ι : Type} {ids : ι → ServerId} {cats cats' : ι → Catalog}

/-- What the nodes know of each other's slots, by the cursors between them. -/
structure Consistent (ids : ι → ServerId) (cats : ι → Catalog) : Prop where
  cursor_le : ∀ i j, (cats j).cursorFor (ids i) ≤ (cats i).lastEtag
  /-- A slot that two other nodes have shown to each other has one value at both. -/
  agree : ∀ i j k cell cell', i ≠ j → k.serverId ≠ ids i → k.serverId ≠ ids j →
    (cats i).slot k = some cell → (cats j).slot k = some cell' →
    cell.etag ≤ (cats j).cursorFor (ids i) → cell'.etag ≤ (cats i).cursorFor (ids j) →
    cell.value = cell'.value
  /-- A slot that a node has been shown is in place there, unless it is its own. -/
  spread : ∀ i j k cell, i ≠ j → k.serverId ≠ ids j → (cats i).slot k = some cell →
    cell.etag ≤ (cats j).cursorFor (ids i) → ∃ cell', (cats j).slot k = some cell'
  /-- Every slot has an owner, and the owner has it. -/
  owned : ∀ i k cell, (cats i).slot k = some cell →
    ∃ o, k.serverId = ids o ∧ ∃ cell', (cats o).slot k = some cell'

/-- The slot is in place with the value that the sender has shown, unless it belongs to the
receiver. -/
def Taken (own : ServerId) (c : Catalog) (k : SlotName) (value : Int64) : Prop :=
  k.serverId = own ∨ (c.slot k).map Cell.value = some value

/-- Nodes without slots that have not met yet. -/
theorem Consistent.of_empty (hslot : ∀ i k, (cats i).slot k = none)
    (hcursor : ∀ i j, (cats j).cursorFor (ids i) = 0) : Consistent ids cats where
  cursor_le := by
    intro i j
    rw [hcursor]
    exact UInt64.zero_le
  agree := by
    intro i j k cell cell' _ _ _ hk
    rw [hslot] at hk
    cases hk
  spread := by
    intro i j k cell _ _ hk
    rw [hslot] at hk
    cases hk
  owned := by
    intro i k cell hk
    rw [hslot] at hk
    cases hk

/-- The invariant is kept when slots change under fresh etags, to values of their owners or of
other nodes, and cursors pass only slots that have been taken. -/
theorem Consistent.step (h : Consistent ids cats)
    (hadvances : ∀ i, Advances
      (fun k _ => k.serverId = ids i ∨ ∃ j cell, (cats j).slot k = some cell) (cats i) (cats' i))
    (hcursor : ∀ i j, (cats' j).cursorFor (ids i) ≤ (cats i).lastEtag)
    (hpassed : ∀ i j k cell, (cats i).slot k = some cell →
      cell.etag ≤ (cats' j).cursorFor (ids i) →
      cell.etag ≤ (cats j).cursorFor (ids i) ∨ Taken (ids j) (cats' j) k cell.value) :
    Consistent ids cats' := by
  -- What a cursor has passed was there before the step.
  have hbefore : ∀ {i j k cell}, (cats' i).slot k = some cell →
      cell.etag ≤ (cats' j).cursorFor (ids i) → (cats i).slot k = some cell :=
    fun hk hle => (hadvances _).slot_of_etag_le hk (UInt64.le_trans hle (hcursor _ _))
  constructor
  case cursor_le => exact fun i j => UInt64.le_trans (hcursor i j) (hadvances i).lastEtag_le
  case agree =>
    intro i j k cell cell' hij hi hj hk hk' hle hle'
    rcases hpassed i j k cell (hbefore hk hle) hle with hold | hown | hvalue
    · rcases hpassed j i k cell' (hbefore hk' hle') hle' with hold' | hown' | hvalue'
      · exact h.agree i j k cell cell' hij hi hj (hbefore hk hle) (hbefore hk' hle') hold hold'
      · exact absurd hown' hi
      · rw [hk] at hvalue'
        exact Option.some.inj hvalue'
    · exact absurd hown hj
    · rw [hk'] at hvalue
      exact (Option.some.inj hvalue).symm
  case spread =>
    intro i j k cell hij hj hk hle
    rcases hpassed i j k cell (hbefore hk hle) hle with hold | hown | hvalue
    · obtain ⟨cell', hk'⟩ := h.spread i j k cell hij hj (hbefore hk hle) hold
      exact (hadvances j).exists_slot hk'
    · exact absurd hown hj
    · obtain ⟨cell', hk', _⟩ := Option.map_eq_some_iff.1 hvalue
      exact ⟨cell', hk'⟩
  case owned =>
    have hold : ∀ i k cell, (cats i).slot k = some cell →
        ∃ o, k.serverId = ids o ∧ ∃ cell', (cats' o).slot k = some cell' := by
      intro i k cell hk
      obtain ⟨o, ho, cell', hk'⟩ := h.owned i k cell hk
      exact ⟨o, ho, (hadvances o).exists_slot hk'⟩
    intro i k cell hk
    rcases (hadvances i).slot k with heq | ⟨_, _, _, hown | ⟨j, cell', hk'⟩⟩
    · exact hold i k cell (heq.symm.trans hk)
    · exact ⟨i, hown, cell, hk⟩
    · exact hold j k cell' hk'

section Update

variable [DecidableEq ι] {c : Catalog} {m : ι}

/-- A node that writes slots of its own keeps the invariant. -/
theorem Consistent.write (h : Consistent ids cats)
    (hadvances : Advances (fun k _ => k.serverId = ids m) (cats m) c)
    (hcursors : c.cursors = (cats m).cursors) : Consistent ids (Function.update cats m c) := by
  have hcursor : ∀ i j, (Function.update cats m c j).cursorFor (ids i) =
      (cats j).cursorFor (ids i) := by
    intro i j
    by_cases hj : j = m
    · subst hj
      rw [Function.update_self, cursorFor, hcursors, cursorFor]
    · rw [Function.update_of_ne hj]
  refine h.step ?_ ?_ ?_
  · intro i
    by_cases hi : i = m
    · subst hi
      rw [Function.update_self]
      exact hadvances.mono fun _ _ => .inl
    · rw [Function.update_of_ne hi]
      exact .refl _
  · intro i j
    rw [hcursor]
    exact h.cursor_le i j
  · intro i j k cell _ hle
    rw [hcursor] at hle
    exact .inl hle

/-- A node that pulls from another keeps the invariant. -/
theorem Consistent.pull (h : Consistent ids cats) (hids : Function.Injective ids) {source : ι}
    (hpulls : Pulls (ids m) (ids source) (cats source) (cats m) c) (hs : (cats source).Sound)
    (hu : ∀ i, (cats i).Undeleted) :
    Consistent ids (Function.update cats m c) := by
  refine h.step ?_ ?_ ?_
  · intro i
    by_cases hi : i = m
    · subst hi
      rw [Function.update_self]
      refine (hpulls.renews.advances (hu i)).mono ?_
      rintro k value ⟨_, hvalue⟩
      obtain ⟨cell, hk, _⟩ := Option.map_eq_some_iff.1 hvalue
      exact .inr ⟨source, cell, hk⟩
    · rw [Function.update_of_ne hi]
      exact .refl _
  · intro i j
    by_cases hj : j = m
    · subst hj
      rw [Function.update_self]
      by_cases hi : i = source
      · subst hi
        rcases hpulls.cursor_cases with heq | hle
        · rw [heq]
          exact h.cursor_le i j
        · exact hle
      · rw [hpulls.cursor_of_ne _ (hids.ne hi)]
        exact h.cursor_le i j
    · rw [Function.update_of_ne hj]
      exact h.cursor_le i j
  · intro i j k cell hk hle
    by_cases hj : j = m
    · subst hj
      rw [Function.update_self] at hle ⊢
      by_cases hi : i = source
      · subst hi
        by_cases hold : cell.etag ≤ (cats j).cursorFor (ids i)
        · exact .inl hold
        · exact .inr (hpulls.taken hs (hu i) ⟨hk, UInt64.not_le.1 hold, hle⟩)
      · rw [hpulls.cursor_of_ne _ (hids.ne hi)] at hle
        exact .inl hle
    · rw [Function.update_of_ne hj] at hle
      exact .inl hle

end Update

/-- Another node has no more to take from this one. -/
def CaughtUp (ids : ι → ServerId) (cats : ι → Catalog) (i j : ι) : Prop :=
  ∀ k cell, (cats i).slot k = some cell →
    cell.etag ≤ (cats j).cursorFor (ids i) ∨ Taken (ids j) (cats j) k cell.value

section Quiet

variable (h : Consistent ids cats) (hquiet : ∀ i j, i ≠ j → CaughtUp ids cats i j)

include h hquiet

/-- Once nobody has more to take, every slot of one node is a slot of all. -/
theorem Consistent.known {k : SlotName} {cell : Cell} {i : ι} (j : ι)
    (hids : Function.Injective ids) (hk : (cats i).slot k = some cell) :
    ∃ cell', (cats j).slot k = some cell' := by
  by_cases hij : i = j
  · exact ⟨cell, hij ▸ hk⟩
  · have hown : k.serverId = ids j → ∃ cell', (cats j).slot k = some cell' := by
      intro hown
      obtain ⟨o, ho, hk'⟩ := h.owned i k cell hk
      obtain rfl : o = j := hids (ho.symm.trans hown)
      exact hk'
    by_cases hj : k.serverId = ids j
    · exact hown hj
    · rcases hquiet i j hij k cell hk with hle | htaken | hvalue
      · exact h.spread i j k cell hij hj hk hle
      · exact hown htaken
      · obtain ⟨cell', hk', _⟩ := Option.map_eq_some_iff.1 hvalue
        exact ⟨cell', hk'⟩

/-- Once nobody has more to take, any two nodes agree on the slots of all others. -/
theorem Consistent.agree_beside (hids : Function.Injective ids) {i j : ι} {k : SlotName}
    (hi : k.serverId ≠ ids i) (hj : k.serverId ≠ ids j) :
    ((cats i).slot k).map Cell.value = ((cats j).slot k).map Cell.value := by
  by_cases hij : i = j
  · rw [hij]
  · cases hk : (cats i).slot k with
    | none =>
        cases hk' : (cats j).slot k with
        | none => rfl
        | some cell' =>
            obtain ⟨cell, hsome⟩ := h.known hquiet i hids hk'
            rw [hk] at hsome
            cases hsome
    | some cell =>
        obtain ⟨cell', hk'⟩ := h.known hquiet j hids hk
        rw [hk']
        refine congrArg some ?_
        rcases hquiet i j hij k cell hk with hle | hown | hvalue
        · rcases hquiet j i (Ne.symm hij) k cell' hk' with hle' | hown' | hvalue'
          · exact h.agree i j k cell cell' hij hi hj hk hk' hle hle'
          · exact absurd hown' hi
          · rw [hk] at hvalue'
            exact Option.some.inj hvalue'
        · exact absurd hown hj
        · rw [hk'] at hvalue
          exact (Option.some.inj hvalue).symm

/-- Once nobody has more to take, all nodes hold the same values exactly when every value of an
owner is held by some other node, if there is one. -/
theorem Consistent.sameValues_iff (hids : Function.Injective ids) :
    (∀ i j, (cats i).SameValues (cats j)) ↔
      ∀ o i, i ≠ o → ∀ k value, k.serverId = ids o →
        ((cats o).slot k).map Cell.value = some value →
          ∃ j, j ≠ o ∧ ((cats j).slot k).map Cell.value = some value := by
  constructor
  · intro hsame o i hio k value _ hvalue
    exact ⟨i, hio, (hsame i o k).trans hvalue⟩
  · intro hheld
    -- The owner and any other node, by way of the node that holds the owner's value.
    have howner : ∀ o j k, j ≠ o → k.serverId = ids o →
        ((cats o).slot k).map Cell.value = ((cats j).slot k).map Cell.value := by
      intro o j k hjo hown
      have hnot : ∀ i, i ≠ o → k.serverId ≠ ids i :=
        fun i hio heq => hio (hids (heq.symm.trans hown))
      cases hk : (cats o).slot k with
      | none =>
          cases hk' : (cats j).slot k with
          | none => rfl
          | some cell' =>
              obtain ⟨cell, hsome⟩ := h.known hquiet o hids hk'
              rw [hk] at hsome
              cases hsome
      | some cell =>
          obtain ⟨i, hio, hvalue⟩ := hheld o j hjo k cell.value hown (by rw [hk]; rfl)
          rw [h.agree_beside hquiet hids (hnot j hjo) (hnot i hio), hvalue]
          rfl
    intro i j k
    by_cases hij : i = j
    · rw [hij]
    · by_cases hi : k.serverId = ids i
      · exact howner i j k (Ne.symm hij) hi
      · by_cases hj : k.serverId = ids j
        · exact (howner j i k hij hj).symm
        · exact h.agree_beside hquiet hids hi hj

end Quiet

end CounterMesh.Catalog
