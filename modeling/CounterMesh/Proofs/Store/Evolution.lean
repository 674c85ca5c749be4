import CounterMesh.Proofs.Store.Merge

/-!
# Evolution of a catalog

A writer changes its catalog by writes of slots and, when it purges, by
forgetting deleted counters; cursors and the replication document change beside
them. Whatever the order of these changes, a sound catalog stays sound while its
sequences have room, and without a purge every counter keeps its id.
-/

namespace CounterMesh.Catalog

/-- The catalog comes from the first by changes of a writer, among them at most `k` writes of
slots, and removals of counters only if it purges. -/
inductive Evolves (purge : Prop) : (k : Nat) → Catalog → Catalog → Prop where
  | refl (k : Nat) (c : Catalog) : Evolves purge k c c
  | put {k : Nat} {c c' : Catalog} (h : Evolves purge k c c') (group name : String)
      (serverId : ServerId) (sign : Sign) (value : Int64)
      (reserved : serverId = .nil → sign = .positive) :
      Evolves purge (k + 1) c (c'.put group name serverId sign value)
  | forget {k : Nat} {c c' : Catalog} (h : Evolves purge k c c') (counterId : CounterId)
      (hpurge : purge) : Evolves purge k c (c'.forget counterId)
  | cursor {k : Nat} {c c' : Catalog} (h : Evolves purge k c c') (serverId : ServerId)
      (etag : Etag) : Evolves purge k c (c'.setCursor serverId etag)
  | replication {k : Nat} {c c' : Catalog} (h : Evolves purge k c c')
      (document : ReplicationDocument) :
      Evolves purge k c
        (c'.setMetadata Layout.replicationKey (Bytes.ofText document.toJson.render))

namespace Evolves

variable {purge : Prop} {k : Nat} {c c' : Catalog}

theorem mono (h : Evolves purge k c c') {k' : Nat} (hle : k ≤ k') : Evolves purge k' c c' := by
  induction h generalizing k' with
  | refl k c => exact .refl k' c
  | put h group name serverId sign value reserved ih =>
      obtain ⟨j, rfl⟩ : ∃ j, k' = j + 1 := ⟨k' - 1, by omega⟩
      exact (ih (by omega)).put group name serverId sign value reserved
  | forget h counterId hpurge ih => exact (ih hle).forget counterId hpurge
  | cursor h serverId etag ih => exact (ih hle).cursor serverId etag
  | replication h document ih => exact (ih hle).replication document

theorem imp {purge' : Prop} (h : Evolves purge k c c') (himp : purge → purge') :
    Evolves purge' k c c' := by
  induction h with
  | refl k c => exact .refl k c
  | put h group name serverId sign value reserved ih =>
      exact ih.put group name serverId sign value reserved
  | forget h counterId hpurge ih => exact ih.forget counterId (himp hpurge)
  | cursor h serverId etag ih => exact ih.cursor serverId etag
  | replication h document ih => exact ih.replication document

/-- Every write uses up at most one number of each sequence. -/
theorem hasRoom (h : Evolves purge k c c') {j : Nat} (hroom : c.HasRoom (k + j)) :
    c'.HasRoom j := by
  induction h generalizing j with
  | refl k c => exact hroom.mono (by omega)
  | put h group name serverId sign value reserved ih =>
      exact HasRoom.put (ih (hroom.mono (by omega)))
  | forget h counterId hpurge ih => exact ih hroom
  | cursor h serverId etag ih => exact ih hroom
  | replication h document ih => exact ih hroom

theorem sound (h : Evolves purge k c c') (hs : c.Sound) (hroom : c.HasRoom k) : c'.Sound := by
  induction h with
  | refl k c => exact hs
  | put h group name serverId sign value reserved ih =>
      exact (ih hs (hroom.mono (by omega))).put (h.hasRoom hroom) reserved
  | forget h counterId hpurge ih => exact (ih hs hroom).forget counterId
  | cursor h serverId etag ih => exact (ih hs hroom).setCursor serverId etag
  | replication h document ih => exact (ih hs hroom).setMetadata _ _

theorem records (h : Evolves purge k c c') {serverId : ServerId} (hr : c.Records serverId) :
    c'.Records serverId := by
  induction h with
  | refl k c => exact hr
  | put h group name serverId sign value reserved ih => exact (ih hr).put ..
  | forget h counterId hpurge ih => exact (ih hr).forget counterId
  | cursor h peer etag ih => exact (ih hr).setCursor peer etag
  | replication h document ih => exact (ih hr).setReplication _

/-- Only a purge takes the id of a counter away. -/
theorem ids_eq (h : Evolves purge k c c') (hpurge : ¬ purge) {group name : String}
    {id : CounterId} (hid : c.ids group name = some id) : c'.ids group name = some id := by
  induction h with
  | refl k c => exact hid
  | put h g n serverId sign value reserved ih => exact ids_put_of_some (ih hid)
  | forget h counterId hp ih => exact absurd hp hpurge
  | cursor h serverId etag ih => exact ih hid
  | replication h document ih => exact ih hid

/-- Without writes a counter keeps its id or is not listed any more. -/
theorem ids_eq_or_none (h : Evolves purge 0 c c') {group name : String} {id : CounterId}
    (hid : c.ids group name = some id) :
    c'.ids group name = some id ∨ c'.ids group name = none := by
  generalize hk : 0 = k at h
  induction h with
  | refl k c => exact .inl hid
  | put h g n serverId sign value reserved ih => cases hk
  | forget h counterId hp ih =>
      rcases ih hid hk with heq | hnone
      · by_cases hforget : id = counterId
        · exact .inr (by simp [Catalog.forget, heq, hforget])
        · exact .inl (ids_forget_eq_some_iff.2 ⟨heq, hforget⟩)
      · exact .inr (by simp [Catalog.forget, hnone])
  | cursor h serverId etag ih => exact ih hid hk
  | replication h document ih => exact ih hid hk

/-- Without writes and purges all counters stay as they are. -/
theorem same_counters (h : Evolves purge 0 c c') (hpurge : ¬ purge) :
    c'.ids = c.ids ∧ c'.cells = c.cells := by
  generalize hk : 0 = k at h
  induction h with
  | refl k c => exact ⟨rfl, rfl⟩
  | put h g n serverId sign value reserved ih => cases hk
  | forget h counterId hp ih => exact absurd hp hpurge
  | cursor h serverId etag ih => exact ih hk
  | replication h document ih => exact ih hk

end Evolves

/-- A write of a slot leaves the replication document alone. -/
theorem replication_put (c : Catalog) (group name : String) (serverId : ServerId) (sign : Sign)
    (value : Int64) : (c.put group name serverId sign value).metadata Layout.replicationKey =
      c.metadata Layout.replicationKey := by
  have hput : (c.put group name serverId sign value).metadata =
      (c.reserve group name).takeEtag.metadata := rfl
  rw [hput, metadata_takeEtag, Function.update_of_ne (by decide), reserve]
  split
  · rfl
  · rw [metadata_takeCounterId, Function.update_of_ne (by decide)]

/-- The replication document of the catalog, if it has one, is written as JSON. -/
def Documented (c : Catalog) : Prop :=
  ∀ bytes, c.metadata Layout.replicationKey = some bytes →
    ∃ document : ReplicationDocument, bytes = Bytes.ofText document.toJson.render

theorem Evolves.documented {purge : Prop} {k : Nat} {c c' : Catalog} (h : Evolves purge k c c')
    (hd : c.Documented) : c'.Documented := by
  induction h with
  | refl k c => exact hd
  | put h group name serverId sign value reserved ih =>
      intro bytes hbytes
      rw [replication_put] at hbytes
      exact ih hd bytes hbytes
  | forget h counterId hpurge ih => exact ih hd
  | cursor h serverId etag ih => exact ih hd
  | replication h document ih =>
      intro bytes hbytes
      rw [metadata_setMetadata, Function.update_self, Option.some.injEq] at hbytes
      exact ⟨document, hbytes.symm⟩

end CounterMesh.Catalog
