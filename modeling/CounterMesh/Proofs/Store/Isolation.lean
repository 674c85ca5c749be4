import CounterMesh.Proofs.Store.Calls
import CounterMesh.Proofs.Store.Indexes

/-!
# Counters apart from each other

A store, a replicated write, a reset and a deletion work on one counter. Names of
any length stand next to binary ids in the index trees, and all counters share
the trees of slots, etags and dates; yet whatever such a call does, and wherever
it fails, no row about another counter changes, and what is known of the peers
stays as it is.
-/

namespace CounterMesh

/-- The change of a catalog is confined to one counter: all others keep their ids and their slots,
and the cursors and the replication document stay as they are. -/
structure Catalog.Confined (group name : String) (c c' : Catalog) : Prop where
  others : ∀ {g n : String}, ¬ (g = group ∧ n = name) → c.Agrees c' g n
  cursors : c'.cursors = c.cursors
  replication : c'.metadata Layout.replicationKey = c.metadata Layout.replicationKey

namespace Catalog

variable {c c' c'' : Catalog} {group name g n : String} {id : CounterId}

namespace Confined

theorem refl (c : Catalog) : Confined group name c c :=
  ⟨fun _ => .refl c _ _, rfl, rfl⟩

theorem trans (h : Confined group name c c') (h' : Confined group name c' c'') :
    Confined group name c c'' where
  others := fun hname => (h.others hname).trans (h'.others hname)
  cursors := h'.cursors.trans h.cursors
  replication := h'.replication.trans h.replication

/-- The write of a slot is confined to its counter. -/
theorem put (h : c.Sound) (hroom : c.HasRoom 1) (serverId : ServerId) (sign : Sign)
    (value : Int64) : Confined group name c (c.put group name serverId sign value) where
  others := by
    intro g n hname
    refine ⟨ids_put_of_ne _ _ _ _ _ _ hname, fun {p} hid => ?_⟩
    have hother : p.counterId ≠ c.idFor group name := by
      intro heq
      exact hname (h.idFor_unique hroom (heq ▸ hid))
    refine cells_put_of_ne _ _ _ _ _ _ ?_ ?_
    · rintro rfl
      exact hother rfl
    · intro ht
      exact hother (congrArg Place.counterId ht)
  cursors := cursors_put ..
  replication := replication_put ..

end Confined

/-- Writes of the slots of one counter are confined to it. -/
theorem Puts.confined {k : Nat} (h : Puts (fun slot => slot.Of group name) k c c') (hs : c.Sound)
    (hroom : c.HasRoom k) : Confined group name c c' := by
  induction h with
  | refl k c => exact .refl c
  | put h slot value hof reserved ih =>
      obtain ⟨rfl, rfl⟩ := hof
      have hevolves : Evolves False _ _ _ := h.evolves
      have hroom' := hroom.mono (Nat.le_succ _)
      exact (ih hs hroom').trans
        (.put (hevolves.sound hs hroom') (hevolves.hasRoom hroom) _ _ value)

namespace Agrees

variable (h : c.Agrees c' g n)

include h

theorem liveId? : c'.liveId? g n = c.liveId? g n := by
  refine Option.ext fun id => ?_
  rw [liveId?_eq_some_iff, liveId?_eq_some_iff, h.ids]
  exact and_congr_right fun hid => not_congr (h.deleted_iff hid)

/-- The slots of the counter hold what they held. -/
theorem untouched : Untouched c c' g n := by
  rintro k ⟨rfl, rfl⟩
  rw [slot, slot, h.ids]
  cases hid : c.ids k.group k.name with
  | none => rfl
  | some id => exact h.cells (p := ⟨id, k.serverId, k.sign⟩) hid

theorem deletedId? : c'.deletedId? g n = c.deletedId? g n := by
  refine Option.ext fun id => ?_
  rw [deletedId?_eq_some_iff, deletedId?_eq_some_iff, h.ids]
  exact and_congr_right fun hid => h.deleted_iff hid

end Agrees

end Catalog

namespace Transaction

/-- Every row about a counter id is the same in both transactions: its slots with their values, the
tombstone among them, their etags, the entries of the feed, the name, and the date of the
tombstone. -/
structure SameRows (t t' : Transaction) (id : CounterId) : Prop where
  slots : t'.scanStarting Layout.counters (Word.big id) =
    t.scanStarting Layout.counters (Word.big id)
  etags : t'.scanStarting Layout.keyToEtag (Word.big id) =
    t.scanStarting Layout.keyToEtag (Word.big id)
  feed : ∀ etag key, Word.big id <+: key →
    (t'.get Layout.etagToKey etag = .ok (some key) ↔ t.get Layout.etagToKey etag = .ok (some key))
  names : t'.scanStarting Layout.counterNames (Word.big id) =
    t.scanStarting Layout.counterNames (Word.big id)
  dates : ∀ date, t'.valuesStarting Layout.tombstonesByDate date (Word.big id) =
    t.valuesStarting Layout.tombstonesByDate date (Word.big id)

/-- Both transactions say the same of a counter: whether it is listed, live or deleted, its id, its
total and its slots, each with its value and its etag. -/
structure SameAnswers (t t' : Transaction) (group name : String) : Prop where
  found : ∃ id?, Index.anyId? t group name = .ok id?
  anyId : Index.anyId? t' group name = Index.anyId? t group name
  liveId : Index.liveId? t' group name = Index.liveId? t group name
  deletedId : Index.deletedId? t' group name = Index.deletedId? t group name
  totalOf : Index.totalOf t' group name = Index.totalOf t group name
  slotsOf : Index.slotsOf t' group name = Index.slotsOf t group name
  valueOf : ∀ owner sign,
    Index.valueOf? t' group name owner sign = Index.valueOf? t group name owner sign
  etagOf : ∀ owner sign,
    Index.etagOf? t' group name owner sign = Index.etagOf? t group name owner sign

/-- Nothing that the trees hold of any other counter changes, nor of the peers. -/
structure Confined (group name : String) (t t' : Transaction) : Prop where
  answers : ∀ {g n}, ¬ (g = group ∧ n = name) → t.SameAnswers t' g n
  rows : ∀ {g n id}, ¬ (g = group ∧ n = name) → Index.anyId? t g n = .ok (some id) →
    t.SameRows t' id
  cursors : t'.trees.get? Layout.peerEtags = t.trees.get? Layout.peerEtags
  document : t'.get Layout.metadata Layout.replicationKey =
    t.get Layout.metadata Layout.replicationKey

end Transaction

namespace Catalog.Agrees

open Transaction (SameRows SameAnswers)

variable {c c' : Catalog} {t t' : Transaction} {g n : String} {id : CounterId}
variable (h : c.Agrees c' g n) (hc : t.trees.Shows c.ledger)
variable (hc' : t'.trees.Shows c'.ledger)

include h hc hc'

theorem sameRows (hs : c.Sound) (hs' : c'.Sound) (hid : c.ids g n = some id) :
    t.SameRows t' id := by
  have hid' : c'.ids g n = some id := (h.ids).trans hid
  have hplace : ∀ p : Place, Word.big id <+: p.bytes → c.ids g n = some p.counterId :=
    fun p hp => hid.trans (congrArg some ((Place.prefix_bytes_iff id p).1 hp).symm)
  constructor
  case slots =>
    refine Transaction.scanStarting_congr hc' hc .values fun p value hp => ?_
    rw [plain_ledger_values, plain_ledger_values, h.valueAt (hplace p hp)]
  case etags =>
    refine Transaction.scanStarting_congr hc' hc .etags fun p etag hp => ?_
    rw [plain_ledger_etags, plain_ledger_etags, h.etagAt (hplace p hp)]
  case feed =>
    intro etag key hkey
    refine (Transaction.get_eq_some_iff hc' .places).trans (Iff.trans ?_
      (Transaction.get_eq_some_iff hc .places).symm)
    refine exists₂_congr fun e p => and_congr_right fun _ => and_congr_right fun hp => ?_
    have hp : p.bytes = key := hp
    rw [plain_ledger_places, plain_ledger_places, h.etagAt (hplace p (hp ▸ hkey))]
  case names =>
    refine Transaction.scanStarting_congr hc' hc .names fun x g' hx => ?_
    obtain ⟨id', n'⟩ := x
    obtain rfl : id' = id := (NameKey.prefix_bytes_iff id id' _).1 hx
    rw [plain_ledger_names, plain_ledger_names]
    -- The id is that of the one counter in both catalogs.
    constructor
    · intro hx
      obtain ⟨rfl, rfl⟩ := hs'.id_unique hx hid'
      exact hid
    · intro hx
      obtain ⟨rfl, rfl⟩ := hs.id_unique hx hid
      exact hid'
  case dates =>
    intro date
    refine Transaction.valuesStarting_congr hc' hc .dates date fun ticks p hp => ?_
    rw [multi_ledger_dates, multi_ledger_dates, h.valueAt (hplace p hp)]

theorem sameAnswers (hs : c.Sound) (hs' : c'.Sound) : t.SameAnswers t' g n := by
  have hany : Index.anyId? t' g n = Index.anyId? t g n := by
    rw [index_anyId? hc', index_anyId? hc, h.ids]
  have hlive : Index.liveId? t' g n = Index.liveId? t g n := by
    rw [index_liveId? hc', index_liveId? hc, h.liveId?]
  constructor
  case found => exact ⟨_, index_anyId? hc g n⟩
  case anyId => exact hany
  case liveId => exact hlive
  case deletedId => rw [index_deletedId? hc', index_deletedId? hc, h.deletedId?]
  case totalOf =>
    rw [Index.totalOf, Index.totalOf, Index.liveId, Index.liveId, hlive, index_liveId? hc]
    cases hid : c.liveId? g n with
    | none => rfl
    | some id =>
        have hlisted := ((c.liveId?_eq_some_iff g n).1 hid).1
        simp only [bind, Except.bind, pure, Except.pure, Index.total, Index.slots,
          (h.sameRows hc hc' hs hs' hlisted).slots]
  case slotsOf =>
    rw [Index.slotsOf, Index.slotsOf, hany, index_anyId? hc]
    cases hid : c.ids g n with
    | none => rfl
    | some id =>
        simp only [bind, Except.bind, Index.slots, (h.sameRows hc hc' hs hs' hid).slots]
  case valueOf =>
    intro owner sign
    rw [index_valueOf? hc', index_valueOf? hc,
      h.untouched ⟨g, n, owner.server, sign⟩ ⟨rfl, rfl⟩]
  case etagOf =>
    intro owner sign
    rw [index_etagOf? hc', index_etagOf? hc,
      h.untouched ⟨g, n, owner.server, sign⟩ ⟨rfl, rfl⟩]

end Catalog.Agrees

namespace Catalog.Confined

variable {c c' : Catalog} {t t' : Transaction} {group name : String}
variable (h : Confined group name c c') (hc : t.trees.Shows c.ledger)
variable (hc' : t'.trees.Shows c'.ledger)

include h hc hc'

/-- What is confined in the catalogs is confined in the trees. -/
theorem trees (hs : c.Sound) (hs' : c'.Sound) : Transaction.Confined group name t t' where
  answers := fun hname => (h.others hname).sameAnswers hc hc' hs hs'
  rows := by
    intro g n id hname hid
    rw [index_anyId? hc, Except.ok.injEq] at hid
    exact (h.others hname).sameRows hc hc' hs hs' hid
  cursors := by
    refine Database.Shows.get?_plain_eq hc' hc (c := .cursors) ?_
    funext serverId etag
    rw [plain_ledger_cursors, plain_ledger_cursors, h.cursors]
  document := by
    refine Transaction.get_congr hc' hc .metadata ?_
    rintro key value rfl
    rw [plain_ledger_metadata, plain_ledger_metadata, h.replication]

end Catalog.Confined

namespace Call

/-- The counter that a call works on, for calls that work on one. -/
def subject? : Call → Option (String × String)
  | store group name _ => some (group, name)
  | storeReplicated group name _ _ _ => some (group, name)
  | reset group name => some (group, name)
  | delete group name => some (group, name)
  | _ => none

/-- A call that works on one counter writes slots of this counter only, whether it answers or
fails. -/
theorem leaves_subject {call : Call} {s : Session} {home : Node} {c : Catalog}
    {group name : String} (h : s.Shows home c.ledger) (hs : c.Sound)
    (hroom : c.HasRoom call.writes) (hnode : home.serverId ≠ .nil)
    (hcall : call.subject? = some (group, name)) :
    Leaves call.operation s fun s' =>
      s'.Wrote home (fun slot => slot.Of group name) c call.writes := by
  have hlocal : call.counter? = some (group, name) → Leaves call.operation s fun s' =>
      s'.Wrote home (fun slot => slot.Of group name) c call.writes := by
    intro hcounter
    refine call.leaves_local h hs hroom hnode (by rw [hcounter]; rfl) fun k htouches _ => ?_
    rw [counter?_of_touches htouches, Option.some.injEq, Prod.mk.injEq] at hcounter
    exact hcounter
  cases call with
  | storeReplicated g n serverId sign value =>
      cases hcall
      refine leaves_discard ?_
      refine (Write.storeReplicated_ends h hs hroom group name serverId sign value).mono ?_ ?_
      · rintro _ s' ⟨_, h'⟩
        exact ⟨_, (Catalog.Puts.refl 0 c).put ⟨group, name, serverId, sign.under serverId⟩ value
          ⟨rfl, rfl⟩ (Sign.under_nil sign), h'⟩
      · rintro _ ⟨_, rfl⟩
        exact ⟨c, .refl _ c, h⟩
  | store g n delta => exact hlocal hcall
  | reset g n => exact hlocal hcall
  | delete g n => exact hlocal hcall
  | _ => cases hcall

end Call

namespace Stage

/-- In every state of a run, a call that works on one counter leaves the rows of all other counters
and of the peers as they are. -/
theorem Reachable.spares_others {stage stage' : Stage} (h : Reachable stage) {call : Call}
    (hstep : Step stage (.call call) stage') {group name : String}
    (hcall : call.subject? = some (group, name)) :
    Transaction.Confined group name stage.transaction stage'.transaction := by
  cases hstep with
  | @call engine s call hetag hcounterId =>
      obtain ⟨c, hs, _, home, c₀, hcommitted, hshows⟩ := h.holds
      rw [hshows.lastEtag] at hetag
      rw [hshows.lastCounterId] at hcounterId
      have hroom : c.HasRoom call.writes := ⟨hetag, hcounterId⟩
      obtain ⟨c', hputs, hshows'⟩ := call.finish_of_leaves
        (Call.leaves_subject hshows hs hroom hcommitted.serverId hcall)
      have hevolves : Catalog.Evolves False call.writes c c' := hputs.evolves
      exact (hputs.confined hs hroom).trees hshows.trees hshows'.trees hs
        (hevolves.sound hs hroom)

/-- The name of the second counter is that of the first with its id behind it, so that it looks
like the entry of the first one. -/
theorem spares_others_of_similar_names : ∃ engine s,
    afterCalls plainOpening
      [.store "group" "n" 5, .store "group" "n\x00\x00\x00\x00\x00\x00\x00\x01" 7] =
        .ok (writing engine s) ∧
    Transaction.Confined "group" "n" (writing engine s).transaction
      (writing engine ((Call.delete "group" "n").finish s)).transaction ∧
    Index.totalOf (writing engine ((Call.delete "group" "n").finish s)).transaction "group"
      "n\x00\x00\x00\x00\x00\x00\x00\x01" = .ok 7 := by
  obtain ⟨engine, s, hcalls, hreachable, hetag, hcounterId, htotal⟩ :=
    exists_afterCalls_of_finds plainOpening rfl (by decide) (by decide)
      [.store "group" "n" 5, .store "group" "n\x00\x00\x00\x00\x00\x00\x00\x01" 7] (by decide)
      (fun engine s => s.writer.lastEtag = 2 ∧ s.writer.lastCounterId = 2 ∧
        Index.totalOf (writing engine s).transaction "group"
          "n\x00\x00\x00\x00\x00\x00\x00\x01" = .ok 7)
      (by decide +kernel)
  have hstep : Step (writing engine s) (.call (.delete "group" "n"))
      (writing engine ((Call.delete "group" "n").finish s)) := by
    refine .call _ ?_ ?_
    · rw [hetag]
      decide
    · rw [hcounterId]
      decide
  have hconfined := hreachable.spares_others hstep rfl
  exact ⟨engine, s, hcalls, hconfined, (hconfined.answers (by decide)).totalOf.trans htotal⟩

end Stage

end CounterMesh
