import CounterMesh.Proofs.Store.Totals

/-!
# Changes

A commit publishes a change for every write of a counter. A store and the
replicated write of a node's slot add the counter, or increment or decrement it,
by whether they found it live; a reset is the store of the delta that it
returns, and a deletion comes after the deltas that bring the total to zero. The
last change of a counter then tells whether the counter is live, and a counter
without any change is not.
-/

namespace CounterMesh

/-- What an amount does to a counter that is live. -/
def ChangeAction.ofAmount (amount : Int64) : ChangeAction :=
  if amount < 0 then .decrement else .increment

namespace Change

/-- The counter that a change is about. -/
def counter (change : Change) : String × String := (change.group, change.name)

/-- The change of a live counter by an amount. -/
def ofAmount (group name : String) (serverId : ServerId) (amount : Int64) : Change :=
  ⟨group, name, .ofAmount amount, serverId⟩

/-- The change of a deletion. -/
def deletion (group name : String) : Change := ⟨group, name, .delete, .nil⟩

/-- The last change of a counter. -/
def last? (changes : List Change) (group name : String) : Option Change :=
  (changes.filter fun change => change.counter = (group, name)).getLast?

/-- The changes tell that the counter is live: there is one about it, and the last one is no
deletion. -/
def TellLive (changes : List Change) (group name : String) : Prop :=
  ∃ change, last? changes group name = some change ∧ change.action ≠ .delete

variable {changes : List Change} {group name : String}

/-- A change by an amount is no deletion. -/
theorem ofAmount_about (group name : String) (serverId : ServerId) (amount : Int64) :
    (ofAmount group name serverId amount).counter = (group, name) ∧
      (ofAmount group name serverId amount).action ≠ .delete := by
  refine ⟨rfl, ?_⟩
  rw [ofAmount, ChangeAction.ofAmount]
  split <;> nofun

/-- A change of another counter tells nothing about this one. -/
theorem tellLive_concat_of_ne {change : Change} (h : change.counter ≠ (group, name)) :
    TellLive (changes ++ [change]) group name ↔ TellLive changes group name := by
  rw [TellLive, last?, List.filter_append, List.filter_cons_of_neg (by simpa using h),
    List.filter_nil, List.append_nil]
  rfl

/-- The last change of a counter decides. -/
theorem tellLive_concat {change : Change} (h : change.counter = (group, name)) :
    TellLive (changes ++ [change]) group name ↔ change.action ≠ .delete := by
  rw [TellLive, last?, List.filter_append, List.filter_cons_of_pos (by simpa using h),
    List.filter_nil, List.getLast?_concat]
  simp

end Change

/-- The live counters are those that the changes tell of. -/
def Catalog.Told (c : Catalog) (changes : List Change) : Prop :=
  ∀ group name, c.Live group name ↔ Change.TellLive changes group name

namespace Catalog.Told

variable {c c' : Catalog} {changes : List Change} {group name : String}

theorem initial (serverId : ServerId) : (Catalog.initial serverId).Told [] :=
  fun _ _ => iff_of_false (fun ⟨_, hid, _⟩ => by cases hid) fun ⟨_, hlast, _⟩ => by cases hlast

section Put

variable (h : c.Told changes) (hs : c.Sound) (hroom : c.HasRoom 1)

include h hs hroom

/-- The write of a slot is told by one change of its counter. -/
theorem put {serverId : ServerId} {sign : Sign} {value : Int64} {change : Change}
    (hchange : change.counter = (group, name))
    (hlive : (c.put group name serverId sign value).Live group name ↔ change.action ≠ .delete) :
    (c.put group name serverId sign value).Told (changes ++ [change]) := by
  intro g n
  by_cases hname : g = group ∧ n = name
  · obtain ⟨rfl, rfl⟩ := hname
    rw [hlive, Change.tellLive_concat hchange]
  · have hother : change.counter ≠ (g, n) := by
      rw [hchange]
      intro heq
      exact hname ⟨(Prod.mk.inj heq).1.symm, (Prod.mk.inj heq).2.symm⟩
    have hconfined : Confined group name c (c.put group name serverId sign value) :=
      .put hs hroom serverId sign value
    rw [Change.tellLive_concat_of_ne hother, (hconfined.others hname).live_iff]
    exact h g n

theorem put_node {serverId : ServerId} (hnode : serverId ≠ .nil) {sign : Sign} {value : Int64}
    {change : Change}
    (hchange : change.counter = (group, name) ∧ change.action ≠ .delete) :
    (c.put group name serverId sign value).Told (changes ++ [change]) :=
  h.put hs hroom hchange.1 (iff_of_true (live_put_node hnode) hchange.2)

theorem put_tombstone {ticks : Int64} :
    (c.put group name .nil .positive ticks).Told (changes ++ [.deletion group name]) := by
  refine h.put hs hroom rfl (iff_of_false ?_ fun hkept => hkept rfl)
  have hslot : (c.put group name .nil .positive ticks).slot (.tombstone group name) =
      some ⟨ticks, c.lastEtag + 1⟩ := (slot_put hs hroom _).trans (if_pos rfl)
  exact (dead_of_tombstone (congrArg (Option.map Cell.value) hslot)).not_live

end Put

/-- Deltas are told one by one. -/
theorem credits (h : c.Told changes) (hs : c.Sound) {own : ServerId} (hown : own ≠ .nil)
    (amounts : List Int64) (hroom : c.HasRoom amounts.length) :
    (c.credits own (amounts.map (Delta.mk group name))).Told
      (changes ++ amounts.reverse.map (Change.ofAmount group name own)) := by
  induction amounts with
  | nil =>
      show c.Told (changes ++ [])
      rw [List.append_nil]
      exact h
  | cons amount older ih =>
      obtain ⟨hs', hroom'⟩ := hs.credits hown (older.map (Delta.mk group name))
        (List.length_map _).le hroom
      rw [List.reverse_cons, List.map_append, ← List.append_assoc]
      exact (ih (hroom.mono (Nat.le_succ _))).put_node hs' hroom' hown
        (Change.ofAmount_about group name own amount)

/-- What is forgotten was not live. -/
theorem forgets (h : c.Told changes) (hforgets : Forgets c c') : c'.Told changes := by
  intro g n
  rw [← h]
  rcases hforgets.cases g n with hagrees | ⟨hdead, hnone⟩
  · exact hagrees.live_iff
  · refine iff_of_false ?_ hdead
    rintro ⟨id, hid, _⟩
    rw [hnone] at hid
    cases hid

/-- A change beside the counters makes no difference. -/
theorem congr (h : c.Told changes) (hids : c'.ids = c.ids) (hcells : c'.cells = c.cells) :
    c'.Told changes := by
  intro g n
  rw [← h, Live, Live, hids]
  simp only [Deleted, hcells]

end Catalog.Told

namespace Session

/-- Whether a look-up in the trees of the writer finds the counter live. -/
def finds (s : Session) (group name : String) : Bool :=
  match Index.liveId? s.writer.transaction group name with
  | .ok found => found.isSome
  | .error _ => false

/-- The total of a counter in the trees of the writer; zero where there is none. -/
def totalOf (s : Session) (group name : String) : Int64 :=
  match Index.totalOf s.writer.transaction group name with
  | .ok total => total
  | .error _ => 0

/-- The change of a write by an amount: it adds the counter unless the counter is found live. -/
def written (s : Session) (group name : String) (serverId : ServerId) (amount : Int64) : Change :=
  if s.finds group name then .ofAmount group name serverId amount
  else ⟨group, name, .add, serverId⟩

/-- The change of a replicated write: the reserved id stands for a deletion. -/
def replicated (s : Session) (group name : String) (serverId : ServerId) (value : Int64) : Change :=
  if serverId = .nil then .deletion group name else s.written group name serverId value

end Session

theorem Session.written_about (s : Session) (group name : String) (serverId : ServerId)
    (amount : Int64) : (s.written group name serverId amount).counter = (group, name) ∧
      (s.written group name serverId amount).action ≠ .delete := by
  rw [written]
  split
  · exact Change.ofAmount_about group name serverId amount
  · exact ⟨rfl, nofun⟩

namespace Write

variable {α : Type}

/-- What an operation tells if it answers; one that fails tells nothing. -/
def telling (op : Write α) (news : α → List Change) (s : Session) : List Change :=
  match op.run s with
  | .ok a _ => news a
  | .error _ _ => []

/-- What the entries of a message tell. Those that are passed over tell nothing, each of the others
is a replicated write, and nothing comes after one that fails. -/
def tidings : List FeedEntry → Session → List Change
  | [], _ => []
  | e :: rest, s =>
    match (alreadyApplied e).run s with
    | .ok true s => tidings rest s
    | .ok false s =>
      match (storeReplicated e.group e.name e.serverId e.sign e.value).run s with
      | .ok _ s' => s.replicated e.group e.name e.serverId e.value :: tidings rest s'
      | .error _ _ => []
    | .error _ _ => []

end Write

/-- What a call tells. A reset and a deletion tell something only where they find the counter live:
the reset of the delta that it returns unless that is zero, and the deletion of the deltas that
bring the total to zero, then of itself. -/
def Call.news (s : Session) : Call → List Change
  | store group name delta =>
    Write.telling (Write.store group name delta)
      (fun _ => [s.written group name s.node.serverId delta]) s
  | storeReplicated group name serverId sign value =>
    Write.telling (Write.storeReplicated group name serverId sign value)
      (fun _ => [s.replicated group name serverId value]) s
  | reset group name =>
    if s.finds group name then
      Write.telling (Write.reset group name)
        (fun delta => if delta = 0 then [] else [.ofAmount group name s.node.serverId delta]) s
    else []
  | delete group name =>
    if s.finds group name then
      Write.telling (Write.delete group name)
        (fun _ => (Delta.clearing (s.totalOf group name)).reverse.map
          (Change.ofAmount group name s.node.serverId) ++ [.deletion group name]) s
    else []
  | apply message => Write.tidings message.entries s
  | purge => []
  | recordPeerEtag .. => []
  | updateReplication _ => []

end CounterMesh
