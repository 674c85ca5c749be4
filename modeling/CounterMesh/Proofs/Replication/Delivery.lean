import CounterMesh.Proofs.Replication.Intake
import CounterMesh.Proofs.Store.Growth

/-!
# Histories of messages

A message that is applied to a catalog without deleted counters leaves every slot
that it tells about at the value of its entry. A copy that nothing but messages
reach is therefore at the value that was delivered last, and it falls exactly
when an entry is delivered after another one of its slot with a greater value. A
node whose slots grow tells greater values under later etags.
-/

namespace CounterMesh

namespace Message

/-- The entry about a slot. -/
def about (message : Message) (k : SlotName) : Option FeedEntry :=
  CounterMesh.lastAbout message.entries k

/-- The message tells about every slot once. -/
def Unique (message : Message) : Prop := (message.entries.map FeedEntry.slotName).Nodup

/-- One of the messages holds the entry. -/
def Told (messages : List Message) (e : FeedEntry) : Prop := ∃ m ∈ messages, e ∈ m.entries

instance (messages : List Message) : DecidablePred (Told messages) :=
  fun _ => inferInstanceAs (Decidable (∃ m ∈ messages, _))

/-- What messages, the last one first, say last about a slot. -/
def lastAbout (messages : List Message) (k : SlotName) : Option FeedEntry :=
  CounterMesh.lastAbout (messages.reverse.flatMap Message.entries) k

/-- Of the messages, the last one first, none tells less about a slot than an earlier one that has
a later entry of it. -/
def InOrder (messages : List Message) : Prop :=
  messages.Pairwise fun later earlier => ∀ e ∈ later.entries, ∀ e' ∈ earlier.entries,
    e.slotName = e'.slotName → e.etag < e'.etag → e.value = e'.value

instance : DecidablePred InOrder := fun _ => inferInstanceAs (Decidable (List.Pairwise _ _))

variable {message : Message} {messages : List Message} {k : SlotName} {e e' : FeedEntry}

theorem mem_of_about (h : message.about k = some e) : e ∈ message.entries ∧ e.slotName = k :=
  mem_of_lastAbout h

theorem about_of_mem (hunique : message.Unique) (he : e ∈ message.entries) :
    message.about e.slotName = some e := by
  cases habout : message.about e.slotName with
  | none => exact absurd rfl (lastAbout_eq_none_iff.1 habout e he)
  | some e' =>
      obtain ⟨he', hslot⟩ := mem_of_about habout
      rw [List.inj_on_of_nodup_map hunique he' he hslot]

theorem lastAbout_cons : lastAbout (message :: messages) k =
    (message.about k).or (lastAbout messages k) := by
  rw [lastAbout, List.reverse_cons, List.flatMap_append, List.flatMap_singleton,
    lastAbout_append]
  rfl

theorem told_of_lastAbout (h : lastAbout messages k = some e) :
    Told messages e ∧ e.slotName = k := by
  obtain ⟨he, hslot⟩ := mem_of_lastAbout h
  obtain ⟨m, hm, he⟩ := List.mem_flatMap.1 he
  exact ⟨⟨m, List.mem_reverse.1 hm, he⟩, hslot⟩

theorem exists_lastAbout (h : Told messages e) :
    ∃ last, lastAbout messages e.slotName = some last := by
  obtain ⟨m, hm, he⟩ := h
  refine Option.ne_none_iff_exists'.1 fun hnone => ?_
  exact lastAbout_eq_none_iff.1 hnone e (List.mem_flatMap.2 ⟨m, List.mem_reverse.2 hm, he⟩) rfl

/-- The messages come from a node whose slots grow. -/
structure Coherent (messages : List Message) : Prop where
  unique : ∀ m ∈ messages, m.Unique
  grows : ∀ e e', Told messages e → Told messages e' → e.slotName = e'.slotName →
    e.cell.Before e'.cell ∨ e'.cell.Before e.cell

theorem Coherent.subset {messages' : List Message} (h : Coherent messages)
    (hsub : messages' ⊆ messages) : Coherent messages' where
  unique := fun m hm => h.unique m (hsub hm)
  grows := by
    rintro e e' ⟨m, hm, he⟩ ⟨m', hm', he'⟩
    exact h.grows e e' ⟨m, hsub hm, he⟩ ⟨m', hsub hm', he'⟩

/-- In a coherent history a later entry of a slot has no smaller value. -/
theorem Coherent.value_le (h : Coherent messages) (he : Told messages e) (he' : Told messages e')
    (hslot : e.slotName = e'.slotName) (hetag : ¬ e'.etag < e.etag) : e.value ≤ e'.value := by
  rcases h.grows e e' he he' hslot with hbefore | hbefore
  · exact hbefore.value_le
  · rcases hbefore with heq | ⟨hlt, _⟩
    · exact Int64.le_of_eq (congrArg Cell.value heq).symm
    · exact absurd hlt hetag

/-- After messages in order nothing that was told about a slot is greater than what was told
last. -/
theorem InOrder.le_lastAbout (horder : InOrder messages) (h : Coherent messages)
    (he : Told messages e) : ∃ last, lastAbout messages e.slotName = some last ∧
      e.value ≤ last.value := by
  induction messages with
  | nil =>
      obtain ⟨m, hm, _⟩ := he
      cases hm
  | cons message rest ih =>
      rw [InOrder, List.pairwise_cons] at horder
      rw [lastAbout_cons]
      cases habout : message.about e.slotName with
      | some last =>
          obtain ⟨hlast, hslot⟩ := mem_of_about habout
          refine ⟨last, rfl, ?_⟩
          have htold : Told (message :: rest) last := ⟨message, List.mem_cons_self, hlast⟩
          by_cases hetag : last.etag < e.etag
          · obtain ⟨m, hm, hmem⟩ := he
            rcases List.mem_cons.1 hm with rfl | hrest
            · rw [about_of_mem (h.unique m hm) hmem, Option.some.injEq] at habout
              exact habout ▸ Int64.le_refl _
            · exact Int64.le_of_eq (horder.1 m hrest last hlast e hmem hslot hetag).symm
          · exact h.value_le he htold hslot.symm hetag
      | none =>
          obtain ⟨m, hm, hmem⟩ := he
          rcases List.mem_cons.1 hm with rfl | hrest
          · rw [about_of_mem (h.unique m hm) hmem] at habout
            cases habout
          · exact ih horder.2 (h.subset (List.subset_cons_self _ _)) ⟨m, hrest, hmem⟩

/-- Behind messages in order a message keeps the order exactly when it tells no less than what was
told last. -/
theorem Coherent.inOrder_cons_iff (h : Coherent (message :: messages)) :
    InOrder (message :: messages) ↔ InOrder messages ∧
      ∀ e ∈ message.entries, ∀ last, lastAbout messages e.slotName = some last →
        last.value ≤ e.value := by
  have htold : ∀ {e}, e ∈ message.entries → Told (message :: messages) e :=
    fun he => ⟨message, List.mem_cons_self, he⟩
  have htold' : ∀ {e}, Told messages e → Told (message :: messages) e :=
    fun ⟨m, hm, he⟩ => ⟨m, .tail _ hm, he⟩
  rw [InOrder, List.pairwise_cons, and_comm]
  refine and_congr_right fun horder => ⟨?_, ?_⟩
  · intro hfirst e he last hlast
    obtain ⟨hmem, hslot⟩ := told_of_lastAbout hlast
    by_cases hetag : e.etag < last.etag
    · obtain ⟨m, hm, hlast'⟩ := hmem
      exact Int64.le_of_eq (hfirst m hm e he last hlast' hslot.symm hetag).symm
    · exact h.value_le (htold' hmem) (htold he) hslot hetag
  · intro hlast m hm e he e' he' hslot hetag
    have htold₁ : Told messages e' := ⟨m, hm, he'⟩
    obtain ⟨last, habout, hle⟩ :=
      InOrder.le_lastAbout horder (h.subset (List.subset_cons_self _ _)) htold₁
    have hle' : e.value ≤ e'.value :=
      h.value_le (htold he) (htold' htold₁) hslot (UInt64.lt_asymm hetag)
    have hlast' := hlast e he last (hslot ▸ habout)
    exact Int64.le_antisymm hle' (Int64.le_trans hle hlast')

end Message

namespace Catalog

variable {c : Catalog} {own peer : ServerId} {e : FeedEntry} {entries : List FeedEntry}

theorem Undeleted.receive (hu : c.Undeleted) (hnode : e.serverId ≠ .nil) :
    (c.receive own e).Undeleted := by
  rcases receive_cases own (c := c) fun hnil => absurd hnil hnode with ⟨_, hsame⟩ | ⟨_, hput⟩
  · rwa [hsame]
  · rw [hput]
    exact hu.put hnode

/-- The entry of another node leaves its slot at its value and all others as they were. -/
theorem Undeleted.value_receive (hu : c.Undeleted) (hs : c.Sound) (hroom : c.HasRoom 1)
    (hnode : e.serverId ≠ .nil) (hforeign : e.serverId ≠ own) (k : SlotName) :
    ((c.receive own e).slot k).map Cell.value =
      if e.slotName = k then some e.value else (c.slot k).map Cell.value := by
  have hreserved : e.serverId = .nil → e.sign = .positive := fun hnil => absurd hnil hnode
  by_cases hk : e.slotName = k
  · subst hk
    rw [if_pos rfl]
    exact (inPlace_receive hs hroom hreserved hforeign).holds
  · rw [if_neg hk]
    rcases receive_cases own (c := c) hreserved with ⟨_, hsame⟩ | ⟨_, hput⟩
    · rw [hsame]
    · rw [hput, hu.slot_put hs hroom, if_neg]
      rintro rfl
      exact hk rfl

/-- Of the entries of another node the last one about a slot stays. -/
theorem Undeleted.value_absorb (hu : c.Undeleted) (hs : c.Sound)
    (hroom : c.HasRoom entries.length)
    (hentries : ∀ e ∈ entries, e.serverId ≠ .nil ∧ e.serverId ≠ own) :
    (c.absorb own entries).Undeleted ∧ ∀ k, ((c.absorb own entries).slot k).map Cell.value =
      ((lastAbout entries k).map FeedEntry.value).or ((c.slot k).map Cell.value) := by
  induction entries generalizing c with
  | nil => exact ⟨hu, fun k => rfl⟩
  | cons e rest ih =>
      rw [List.length_cons, Nat.add_comm] at hroom
      obtain ⟨hnode, hforeign⟩ := hentries e List.mem_cons_self
      have hroom' := hroom.mono (Nat.le_add_right 1 _)
      have hevolves : Evolves False 1 c (c.receive own e) := evolves_receive (.refl 0 c) own e
      obtain ⟨hundeleted, hvalue⟩ := ih (hu.receive hnode) (hevolves.sound hs hroom')
        (hevolves.hasRoom hroom) fun e' he' => hentries e' (.tail _ he')
      refine ⟨hundeleted, fun k => ?_⟩
      rw [absorb_cons, hvalue, hu.value_receive hs hroom' hnode hforeign, lastAbout_cons_entry]
      by_cases hk : e.slotName = k
      · cases lastAbout rest k <;> simp [hk]
      · cases lastAbout rest k <;> simp [hk]

/-- A message of another node leaves every slot that it tells about at the value of its entry. -/
theorem Undeleted.value_apply (hu : c.Undeleted) (hs : c.Sound) {message : Message}
    (hroom : c.HasRoom message.entries.length)
    (hentries : ∀ e ∈ message.entries, e.serverId ≠ .nil ∧ e.serverId ≠ own) :
    (c.apply own message).Undeleted ∧ ∀ k, ((c.apply own message).slot k).map Cell.value =
      ((message.about k).map FeedEntry.value).or ((c.slot k).map Cell.value) := by
  rw [Undeleted, deleted_apply, slot_apply]
  exact hu.value_absorb hs hroom hentries

end Catalog

end CounterMesh
