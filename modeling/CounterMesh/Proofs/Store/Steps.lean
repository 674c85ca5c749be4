import CounterMesh.Proofs.Store.Primitive

/-!
# The steps of a merge on a ledger

Each step of a merge has its effect on the ledger: which columns it changes, and
at which pairs. None of the steps fails. Where a step first looks up what it is
to remove, its effect says so without a case: it takes away the pairs that
belong to what the ledger holds.
-/

namespace CounterMesh

/-- The value of a slot after a write, by its value before. -/
def SlotWrite.over : SlotWrite → Option Int64 → Int64
  | .increment magnitude, before => before.getD 0 + magnitude
  | .overwrite value, _ => value
  | .tombstone ticks, _ => ticks

namespace Ledger

variable (L : Ledger)

/-- The slot loses its etag. -/
def freePlace (p : Place) : Ledger :=
  L.setPlain .places fun etag q => ¬ L.plain .etags p etag ∧ L.plain .places etag q

/-- The slot is in neither etag index. -/
def removeEtag (p : Place) : Ledger :=
  (L.freePlace p).setPlain .etags ((L.plain .etags).clear p)

/-- The slot has this etag in both indexes. -/
def assignEtag (p : Place) (etag : Etag) : Ledger :=
  (L.setPlain .places ((L.plain .places).assign etag p)).setPlain .etags
    ((L.plain .etags).assign p etag)

/-- The slot has the next etag in place of its old one. -/
def reassignEtag (p : Place) : Ledger := (L.freePlace p).takeEtag.assignEtag p (L.lastEtag + 1)

/-- The slot has no date under its value. -/
def removeDate (p : Place) : Ledger :=
  L.setMulti .dates fun ticks q => ¬ (q = p ∧ L.plain .values p ticks) ∧ L.multi .dates ticks q

/-- The tombstone is gone with its date and its etag. -/
def removeTombstone (counterId : CounterId) : Ledger :=
  ((L.removeDate (.tombstone counterId)).setPlain .values
    ((L.plain .values).clear (.tombstone counterId))).removeEtag (.tombstone counterId)

/-- The counter is listed among the deleted ones. -/
def listDeleted (group name : String) (counterId : CounterId) : Ledger :=
  (L.setMulti .live ((L.multi .live).discard group (name, counterId))).setMulti .deleted
    ((L.multi .deleted).add group (name, counterId))

/-- The counter is listed among the live ones. -/
def listLive (group name : String) (counterId : CounterId) : Ledger :=
  (L.setMulti .live ((L.multi .live).add group (name, counterId))).setMulti .deleted
    ((L.multi .deleted).discard group (name, counterId))

/-- The name of the counter leads to its group. -/
def assignName (group name : String) (counterId : CounterId) : Ledger :=
  L.setPlain .names ((L.plain .names).assign (counterId, name) group)

/-- The slot has a value. -/
def assignValue (p : Place) (value : Int64) : Ledger :=
  L.setPlain .values ((L.plain .values).assign p value)

/-- The slot is listed under a date, which is its value. -/
def assignDate (p : Place) (ticks : Int64) : Ledger :=
  (((L.removeDate p).assignValue p ticks).setMulti .dates
    (((L.removeDate p).multi .dates).add ticks p))

/-- The slot of a node is written: its counter is live. -/
def writeNode (group name : String) (p : Place) (value : Int64) : Ledger :=
  ((((L.listLive group name p.counterId).assignName group name p.counterId).removeTombstone
    p.counterId).assignValue p value).reassignEtag p

/-- The tombstone of a counter is written: the counter is deleted. -/
def writeTombstone (group name : String) (counterId : CounterId) (ticks : Int64) : Ledger :=
  (((L.listDeleted group name counterId).assignName group name counterId).assignDate
    (.tombstone counterId) ticks).reassignEtag (.tombstone counterId)

end Ledger

namespace Ledger

variable {L : Ledger} {p : Place}

theorem freePlace_of_none (h : ∀ etag, none = some etag ↔ L.plain .etags p etag) :
    L.freePlace p = L := by
  refine L.setPlain_eq_self fun etag q => ?_
  rw [← h etag]
  simp

theorem freePlace_of_some {etag : Etag} (h : ∀ e, some etag = some e ↔ L.plain .etags p e) :
    L.freePlace p = L.setPlain .places ((L.plain .places).clear etag) := by
  refine L.setPlain_congr fun e q => ?_
  rw [← h e, Option.some.injEq, Pairs.clear, eq_comm (a := etag)]

theorem removeEtag_of_none (h : ∀ etag, none = some etag ↔ L.plain .etags p etag) :
    L.removeEtag p = L := by
  rw [removeEtag, freePlace_of_none h]
  refine L.setPlain_eq_self fun q etag => ⟨And.right, fun hq => ⟨?_, hq⟩⟩
  rintro rfl
  cases (h etag).2 hq

theorem removeDate_of_none (h : ∀ value, none = some value ↔ L.plain .values p value) :
    L.removeDate p = L := by
  refine L.setMulti_eq_self fun ticks q => ?_
  rw [← h ticks]
  simp

theorem removeDate_of_some {value : Int64}
    (h : ∀ v, some value = some v ↔ L.plain .values p v) :
    L.removeDate p = L.setMulti .dates ((L.multi .dates).discard value p) := by
  refine L.setMulti_congr fun ticks q => ?_
  rw [← h ticks, Option.some.injEq, Pairs.discard, eq_comm (a := value), and_comm (a := q = p)]

end Ledger

namespace Write

variable {s : Session} {home : Node} {L : Ledger}

theorem returns_removeEtag (h : s.Shows home L) (p : Place) :
    Returns (removeEtag p.bytes) s fun _ s' => s'.Shows home (L.removeEtag p) := by
  refine (returns_get h .etags p).bind ?_
  rintro _ s' ⟨rfl, found, rfl, hfound⟩
  cases found with
  | none =>
      rw [Ledger.removeEtag_of_none hfound]
      exact .pure h
  | some etag =>
      refine (returns_delete h .places etag).bind fun _ s₁ h₁ => ?_
      refine (returns_delete h₁ .etags p).mono fun _ s₂ h₂ => ?_
      rw [Ledger.removeEtag, Ledger.freePlace_of_some hfound]
      exact h₂

private theorem returns_assignEtag (h : s.Shows home (L.freePlace p)) :
    Returns (do
      let etag ← nextEtag
      mutate fun t => t.put Layout.etagToKey (Word.big etag) p.bytes
      mutate fun t => t.put Layout.keyToEtag p.bytes (Word.big etag)) s
      fun _ s' => s'.Shows home (L.reassignEtag p) := by
  rw [← Sequence.next_etag]
  refine (returns_next h .etag).bind ?_
  rintro _ s₁ ⟨rfl, h₁⟩
  exact (returns_put h₁ .places _ p).bind fun _ s₂ h₂ => returns_put h₂ .etags p _

theorem returns_reassignEtag (h : s.Shows home L) (p : Place) :
    Returns (reassignEtag p.bytes) s fun _ s' => s'.Shows home (L.reassignEtag p) := by
  refine (returns_get h .etags p).bind ?_
  rintro _ s' ⟨rfl, found, rfl, hfound⟩
  cases found with
  | none => exact returns_assignEtag (by rwa [Ledger.freePlace_of_none hfound])
  | some etag =>
      refine (returns_delete h .places etag).bind fun _ s₁ h₁ => returns_assignEtag ?_
      rwa [Ledger.freePlace_of_some hfound]

theorem slotValue?_of_shows {t : Transaction} (h : t.trees.Shows L) (p : Place) :
    ∃ found, Index.slotValue? t p.bytes = .ok found ∧
      ∀ value, found = some value ↔ L.plain .values p value := by
  obtain ⟨found, hget, hfound⟩ := Transaction.get_of_shows h .values p
  refine ⟨found, ?_, hfound⟩
  have hget' : t.get Layout.counters p.bytes = .ok (found.map Word.little) := hget
  rw [Index.slotValue?, hget']
  cases found with
  | none => rfl
  | some value =>
      simp only [Option.map_some, bind, Except.bind, Stored.value_little]
      rfl

theorem returns_slotValue? (h : s.Shows home L) (p : Place) :
    Returns (query fun t => Index.slotValue? t p.bytes) s fun found s' => s' = s ∧
      ∀ value, found = some value ↔ L.plain .values p value := by
  obtain ⟨found, hvalue, hfound⟩ := slotValue?_of_shows h.trees p
  refine (returns_query hvalue).mono ?_
  rintro _ _ ⟨rfl, rfl⟩
  exact ⟨rfl, hfound⟩

theorem returns_removeDate (h : s.Shows home L) {p : Place} {ticks : Int64}
    (hfound : ∀ value, some ticks = some value ↔ L.plain .values p value) :
    Returns (removeDate ticks p.bytes) s fun _ s' => s'.Shows home (L.removeDate p) := by
  rw [Ledger.removeDate_of_some hfound]
  exact returns_multiDelete h .dates ticks p

/-- A slot has an etag only with a value, so a counter without a tombstone stays as it is. -/
theorem returns_removeTombstone (h : s.Shows home L) {counterId : CounterId}
    (hetag : ∀ etag, L.plain .etags (.tombstone counterId) etag →
      ∃ value, L.plain .values (.tombstone counterId) value) :
    Returns (removeTombstone counterId) s fun _ s' =>
      s'.Shows home (L.removeTombstone counterId) := by
  rw [removeTombstone, Place.bytes_tombstone]
  refine (returns_slotValue? h (.tombstone counterId)).bind ?_
  rintro found s' ⟨rfl, hfound⟩
  cases found with
  | none =>
      have hvalue : ∀ value, ¬ L.plain .values (.tombstone counterId) value := by
        intro value hvalue
        cases (hfound value).2 hvalue
      have hclear : L.setPlain .values ((L.plain .values).clear (.tombstone counterId)) = L := by
        refine L.setPlain_eq_self fun q value => ⟨And.right, fun hq => ⟨?_, hq⟩⟩
        rintro rfl
        exact hvalue value hq
      have hnone : ∀ etag, none = some etag ↔ L.plain .etags (.tombstone counterId) etag := by
        intro etag
        refine ⟨nofun, fun hp => ?_⟩
        obtain ⟨value, hp'⟩ := hetag etag hp
        exact absurd hp' (hvalue value)
      rw [Ledger.removeTombstone, Ledger.removeDate_of_none hfound, hclear,
        Ledger.removeEtag_of_none hnone]
      exact .pure h
  | some ticks =>
      refine (returns_removeDate h hfound).bind fun _ s₁ h₁ => ?_
      refine (returns_delete h₁ .values (.tombstone counterId)).bind fun _ s₂ h₂ => ?_
      exact returns_removeEtag h₂ (.tombstone counterId)

/-- The slot of a node gets its value over the one before. -/
theorem returns_writeSlot (h : s.Shows home L) (p : Place) (write : SlotWrite)
    (hwrite : ∀ ticks, write ≠ .tombstone ticks) :
    Returns (writeSlot p.bytes write) s fun _ s' => ∃ found : Option Int64,
      (∀ value, found = some value ↔ L.plain .values p value) ∧
      s'.Shows home (L.assignValue p (write.over found)) := by
  cases write with
  | increment magnitude => exact returns_increment h p magnitude
  | overwrite value =>
      obtain ⟨found, _, hfound⟩ := slotValue?_of_shows h.trees p
      exact (returns_put h .values p value).mono fun _ s' h' => ⟨found, hfound, h'⟩
  | tombstone ticks => exact absurd rfl (hwrite ticks)

/-- A tombstone gets its date in place of an older one. -/
theorem returns_writeSlot_tombstone (h : s.Shows home L) (p : Place) (ticks : Int64) :
    Returns (writeSlot p.bytes (.tombstone ticks)) s fun _ s' =>
      s'.Shows home (L.assignDate p ticks) := by
  have hlast : ∀ s : Session, s.Shows home (L.removeDate p) → Returns (do
      mutate fun t => t.put Layout.counters p.bytes (Word.little ticks)
      mutate fun t => t.multiAdd Layout.tombstonesByDate (Word.ordered ticks) p.bytes) s
      fun _ s' => s'.Shows home (L.assignDate p ticks) := fun s h =>
    (returns_put h .values p ticks).bind fun _ s₂ h₂ => returns_multiAdd h₂ .dates ticks p
  refine (returns_slotValue? h p).bind ?_
  rintro found s' ⟨rfl, hfound⟩
  cases found with
  | none => exact hlast s' (by rwa [Ledger.removeDate_of_none hfound])
  | some previous => exact (returns_removeDate h hfound).bind fun _ s₁ h₁ => hlast s₁ h₁

/-- The tombstone of a counter lists it among the deleted ones. -/
theorem returns_updateGroups_tombstone (h : s.Shows home L) (group name : String)
    (counterId : CounterId) :
    Returns (updateGroups group name counterId .tombstone) s fun _ s' =>
      s'.Shows home ((L.listDeleted group name counterId).assignName group name counterId) := by
  refine (returns_multiDelete h .live group (name, counterId)).bind fun _ s₁ h₁ => ?_
  refine (returns_multiAdd h₁ .deleted group (name, counterId)).bind fun _ s₂ h₂ => ?_
  exact (returns_put h₂ .names (counterId, name) group).bind fun _ s₃ h₃ => .pure h₃

/-- A write of a node lists its counter among the live ones and removes the tombstone. -/
theorem returns_updateGroups_node (h : s.Shows home L) (group name : String)
    {counterId : CounterId} (serverId : ServerId)
    (hetag : ∀ etag, L.plain .etags (.tombstone counterId) etag →
      ∃ value, L.plain .values (.tombstone counterId) value) :
    Returns (updateGroups group name counterId (.node serverId)) s fun _ s' =>
      s'.Shows home (((L.listLive group name counterId).assignName group name counterId
        ).removeTombstone counterId) := by
  refine (returns_multiAdd h .live group (name, counterId)).bind fun _ s₁ h₁ => ?_
  refine (returns_multiDelete h₁ .deleted group (name, counterId)).bind fun _ s₂ h₂ => ?_
  refine (returns_put h₂ .names (counterId, name) group).bind fun _ s₃ h₃ => ?_
  exact returns_removeTombstone h₃ hetag

end Write

end CounterMesh
