import CounterMesh.Proofs.Store.Stages
import CounterMesh.Proofs.Store.Totals

/-!
# Journals

A journal holds the stores and the deletions that took effect on a node, a reset
as the store of the delta that it returned. While nothing is replicated to the
node, the journal tells which counters there are and what they count: those
whose last posting is a store, and the wrapped sum of what was stored since the
posting before which there was no counter. A purge removes what is left of
deleted counters, which makes no difference.
-/

namespace CounterMesh

/-- A store or a deletion that took effect. -/
inductive Posting where
  | store (group name : String) (delta : Int64)
  | delete (group name : String)
  deriving DecidableEq

/-- The counter of a posting. -/
def Posting.counter : Posting → String × String
  | store group name _ => (group, name)
  | delete group name => (group, name)

/-- Postings, the newest first. -/
abbrev Journal := List Posting

namespace Journal

/-- The last posting of a counter. -/
def last? (journal : Journal) (group name : String) : Option Posting :=
  journal.find? fun posting => posting.counter = (group, name)

/-- The deltas that were stored in a counter since it was created or last deleted, the newest
first. -/
def deltas (group name : String) : Journal → List Int64
  | [] => []
  | posting :: older =>
    if posting.counter = (group, name) then
      match posting with
      | .store _ _ delta => delta :: deltas group name older
      | .delete _ _ => []
    else deltas group name older

/-- The last posting of the counter is a store. -/
def Lists (journal : Journal) (group name : String) : Prop :=
  ∃ delta, journal.last? group name = some (.store group name delta)

variable {journal : Journal} {group name : String} {posting : Posting} {delta : Int64}

@[simp] theorem deltas_store : deltas group name (.store group name delta :: journal) =
    delta :: deltas group name journal :=
  if_pos rfl

@[simp] theorem deltas_delete : deltas group name (.delete group name :: journal) = [] :=
  if_pos rfl

theorem deltas_of_ne (h : posting.counter ≠ (group, name)) :
    deltas group name (posting :: journal) = deltas group name journal :=
  if_neg h

/-- A counter is listed if anything was stored since it was last deleted. -/
theorem lists_iff : journal.Lists group name ↔ deltas group name journal ≠ [] := by
  induction journal with
  | nil => exact iff_of_false (fun ⟨_, h⟩ => by cases h) fun h => h rfl
  | cons posting older ih =>
      by_cases hcounter : posting.counter = (group, name)
      · rw [Lists, last?, List.find?_cons_of_pos (by simpa using hcounter)]
        cases posting with
        | store g n delta =>
            cases hcounter
            exact iff_of_true ⟨delta, rfl⟩ (by simp)
        | delete g n =>
            cases hcounter
            exact iff_of_false (fun ⟨_, h⟩ => by cases h) fun h => h deltas_delete
      · rw [Lists, last?, List.find?_cons_of_neg (by simpa using hcounter),
          deltas_of_ne hcounter]
        exact ih

end Journal

/-- The catalog has the counters of the journal with their totals; what is left of other counters
adds up to zero. -/
structure Catalog.Posted (c : Catalog) (journal : Journal) : Prop where
  live_iff : ∀ group name, c.Live group name ↔ Journal.deltas group name journal ≠ []
  totals : ∀ group name, c.Totals group name (Journal.deltas group name journal).sum

namespace Catalog.Posted

variable {c c' : Catalog} {journal : Journal} {group name : String} {delta : Int64}

theorem initial (serverId : ServerId) : (Catalog.initial serverId).Posted [] where
  live_iff := fun _ _ => iff_of_false (fun ⟨_, hid, _⟩ => by cases hid) fun h => h rfl
  totals := fun _ _ => totals_zero rfl

/-- A posting of one counter leaves the others as they are. -/
theorem post (h : c.Posted journal) (hconfined : Confined group name c c') {posting : Posting}
    (hcounter : posting.counter = (group, name))
    (hlive : c'.Live group name ↔ Journal.deltas group name (posting :: journal) ≠ [])
    (htotal : c'.Totals group name (Journal.deltas group name (posting :: journal)).sum) :
    c'.Posted (posting :: journal) := by
  have hother : ∀ {g n}, ¬ (g = group ∧ n = name) →
      Journal.deltas g n (posting :: journal) = Journal.deltas g n journal := by
    intro g n hname
    refine Journal.deltas_of_ne ?_
    rw [hcounter]
    intro heq
    exact hname ⟨(Prod.mk.inj heq).1.symm, (Prod.mk.inj heq).2.symm⟩
  constructor
  case live_iff =>
    intro g n
    by_cases hname : g = group ∧ n = name
    · obtain ⟨rfl, rfl⟩ := hname
      exact hlive
    · rw [hother hname, (hconfined.others hname).live_iff]
      exact h.live_iff g n
  case totals =>
    intro g n
    by_cases hname : g = group ∧ n = name
    · obtain ⟨rfl, rfl⟩ := hname
      exact htotal
    · rw [hother hname]
      exact (h.totals g n).congr fun k hk _ => (hconfined.others hname).untouched k hk

theorem store (h : c.Posted journal) (hconfined : Confined group name c c')
    (hlive : c'.Live group name)
    (htotal : c'.Totals group name ((Journal.deltas group name journal).sum + delta)) :
    c'.Posted (.store group name delta :: journal) := by
  refine h.post hconfined rfl ?_ ?_
  · rw [Journal.deltas_store]
    exact iff_of_true hlive (List.cons_ne_nil _ _)
  · rw [Journal.deltas_store, List.sum_cons, Int64.add_comm]
    exact htotal

theorem delete (h : c.Posted journal) (hconfined : Confined group name c c')
    (hdead : ¬ c'.Live group name) (htotal : c'.Totals group name 0) :
    c'.Posted (.delete group name :: journal) := by
  refine h.post hconfined rfl ?_ ?_
  · rw [Journal.deltas_delete]
    exact iff_of_false hdead fun hne => hne rfl
  · rw [Journal.deltas_delete]
    exact htotal

/-- A change beside the counters makes no difference. -/
theorem congr (h : c.Posted journal) (hids : c'.ids = c.ids) (hcells : c'.cells = c.cells) :
    c'.Posted journal where
  live_iff := by
    intro g n
    rw [← h.live_iff, Live, Live, hids]
    simp only [Deleted, hcells]
  totals := by
    intro g n
    refine (h.totals g n).congr fun k _ _ => ?_
    rw [slot, slot, hids, hcells]

/-- A deleted counter that is forgotten makes no difference. -/
theorem forgets (h : c.Posted journal) (hforgets : Forgets c c') : c'.Posted journal where
  live_iff := by
    intro g n
    rw [← h.live_iff]
    rcases hforgets.cases g n with hagrees | ⟨hdead, hnone⟩
    · exact hagrees.live_iff
    · refine iff_of_false ?_ hdead
      rintro ⟨id, hid, _⟩
      rw [hnone] at hid
      cases hid
  totals := by
    intro g n
    rcases hforgets.cases g n with hagrees | ⟨hdead, hnone⟩
    · exact (h.totals g n).congr fun k hk _ => hagrees.untouched k hk
    · rw [h.live_iff, ne_eq, not_not] at hdead
      rw [hdead]
      exact totals_zero hnone

end Catalog.Posted

namespace Write

variable {α : Type}

/-- The posting of an operation that answers. -/
def postings (op : Write α) (posting : α → Posting) (s : Session) : Journal :=
  match op.run s with
  | .ok a _ => [posting a]
  | .error _ _ => []

theorem posted_of_ends {op : Write α} {posting : α → Posting} {s : Session} {home : Node}
    {c : Catalog} {journal : Journal} (h : s.Shows home c.ledger) (hposted : c.Posted journal)
    (hends : Ends op s
      (fun a s' => ∃ c' : Catalog, s'.Shows home c'.ledger ∧ c'.Posted (posting a :: journal))
      fun s' => s' = s) :
    ∃ c' : Catalog, (leaving op s).Shows home c'.ledger ∧
      c'.Posted (postings op posting s ++ journal) := by
  rw [leaving, attempt, postings]
  rcases hends with ⟨a, s', hrun, hpost⟩ | ⟨e, _, hrun, rfl⟩
  · rw [hrun]
    exact hpost
  · rw [hrun]
    exact ⟨c, h, hposted⟩

end Write

namespace Call

/-- What a call posts. -/
def postings (s : Session) : Call → Journal
  | store group name delta =>
    Write.postings (Write.store group name delta) (fun _ => .store group name delta) s
  | reset group name => Write.postings (Write.reset group name) (.store group name) s
  | delete group name => Write.postings (Write.delete group name) (fun _ => .delete group name) s
  | _ => []

/-- What calls of one writer post. -/
def journal : List Call → Session → Journal
  | [], _ => []
  | call :: rest, s => journal rest (call.finish s) ++ call.postings s

/-- The call takes over what was written on another node. -/
def replicates : Call → Bool
  | storeReplicated .. => true
  | apply _ => true
  | _ => false

/-- A call that replicates nothing does to the counters what it posts. -/
theorem posted_finish (call : Call) {s : Session} {home : Node} {c : Catalog} {journal : Journal}
    (h : s.Shows home c.ledger) (hs : c.Sound) (hn : c.AllNamed) (hroom : c.HasRoom call.writes)
    (hnode : home.serverId ≠ .nil) (hlocal : call.replicates = false)
    (hposted : c.Posted journal) :
    ∃ c' : Catalog, (call.finish s).Shows home c'.ledger ∧
      c'.Posted (call.postings s ++ journal) := by
  -- A call that writes no slots and purges nothing leaves every counter as it is.
  have hquiet : call.writes = 0 → call ≠ purge → call.postings s = [] →
      ∃ c' : Catalog, (call.finish s).Shows home c'.ledger ∧
        c'.Posted (call.postings s ++ journal) := by
    intro hwrites hpurge hnone
    obtain ⟨c', hevolves, _, hshows⟩ :=
      call.finish_of_leaves (call.leaves_operation h hs hroom hnode)
    rw [hwrites] at hevolves
    obtain ⟨hids, hcells⟩ := hevolves.same_counters hpurge
    rw [hnone]
    exact ⟨c', hshows, hposted.congr hids hcells⟩
  cases call with
  | store group name delta =>
      rw [finish_of_discard s
        (rfl : (store group name delta).operation = discard (Write.store group name delta))]
      refine Write.posted_of_ends h hposted ((Write.store_total_ends hs hnode h hroom delta
        (hposted.totals group name)).mono ?_ fun _ => And.right)
      rintro _ s' ⟨c', hputs, hlive, htotal, hshows⟩
      exact ⟨c', hshows, hposted.store ((hputs.imp fun _ => And.left).confined hs hroom) hlive
        htotal⟩
  | reset group name =>
      rw [finish_of_discard s
        (rfl : (reset group name).operation = discard (Write.reset group name))]
      refine Write.posted_of_ends h hposted ((Write.reset_ends hs hnode h hn hroom
        (hposted.totals group name)).mono ?_ fun _ => id)
      rintro delta s' ⟨rfl, c', hputs, hlive, htotal, hshows⟩
      refine ⟨c', hshows, hposted.store ((hputs.imp fun _ => And.left).confined hs hroom) hlive ?_⟩
      rwa [Int64.add_right_neg]
  | delete group name =>
      rw [finish]
      refine Write.posted_of_ends h hposted ((Write.delete_ends hs hnode h hn hroom).mono ?_
        fun _ => id)
      rintro _ s' ⟨c', hputs, htombstone, htotal, hshows⟩
      exact ⟨c', hshows, hposted.delete ((hputs.imp fun _ => And.left).confined hs hroom)
        (Catalog.dead_of_tombstone htombstone).not_live htotal⟩
  | purge =>
      obtain ⟨_, s', hrun, c', hforgets, hshows⟩ := Write.forgets_purgeBatch h hs
      rw [finish_of_discard s (rfl : purge.operation = discard Write.purgeBatch),
        leaving_of_ok hrun]
      exact ⟨c', hshows, hposted.forgets hforgets⟩
  | recordPeerEtag serverId etag => exact hquiet rfl (fun heq => by cases heq) rfl
  | updateReplication document => exact hquiet rfl (fun heq => by cases heq) rfl
  | storeReplicated group name serverId sign value => cases hlocal
  | apply message => cases hlocal

end Call

/-- Two journals: of what was committed, and of that together with what the open writer has
done. -/
structure Journals where
  committed : Journal
  current : Journal

namespace Stage

/-- What a call posts in the open writer. -/
def postings (call : Call) : Stage → Journal
  | idle _ => []
  | writing _ s => call.postings s

end Stage

namespace Journals

/-- The journals after an event: a commit and a drop decide about what the writer has done. -/
def after (journals : Journals) (stage : Stage) : Event → Journals
  | .call call => { journals with current := stage.postings call ++ journals.current }
  | .commit _ => ⟨journals.current, journals.current⟩
  | .drop => ⟨journals.committed, journals.committed⟩
  | _ => journals

end Journals

/-- The event takes over what was written on another node. -/
def Event.replicates : Event → Bool
  | .call c => c.replicates
  | _ => false

namespace Stage

/-- The stages of a store to which nothing is replicated, with their journals. -/
inductive Journaled : Stage → Journals → Prop where
  | start {opening : Opening} {store : Store} (h : opening.start .empty = .ok store)
      (hfresh : opening.fresh ≠ .nil) : Journaled (idle store) ⟨[], []⟩
  | step {stage stage' : Stage} {event : Event} {journals : Journals}
      (h : Journaled stage journals) (hstep : Step stage event stage')
      (hlocal : event.replicates = false) : Journaled stage' (journals.after stage event)

variable {stage stage' : Stage} {event : Event} {journals : Journals} {base cur : Catalog}

/-- The catalogs of a stage have the counters of its journals. -/
structure Posted (stage : Stage) (journals : Journals) (base cur : Catalog) : Prop where
  presents : stage.Presents base cur
  committed : base.Posted journals.committed
  current : cur.Posted journals.current

theorem Step.posted (hstep : Step stage event stage') (hlocal : event.replicates = false)
    (h : stage.Posted journals base cur) :
    ∃ base' cur', stage'.Posted (journals.after stage event) base' cur' := by
  obtain ⟨base', cur', hpresents, hmoves⟩ := hstep.presents h.presents
  refine ⟨base', cur', hpresents, ?_, ?_⟩
  · cases hmoves with
    | commit notify => exact h.current
    | _ => exact h.committed
  · cases hmoves with
    | @call _ _ _ call hroom hevolves hnamed =>
        cases hstep with
        | @call engine s _ _ _ =>
            obtain ⟨hs, _, home, hcommitted, hshows⟩ := h.presents.carries
            obtain ⟨_, _, home', _, hshows'⟩ := hpresents.carries
            obtain ⟨c', hshows'', hposted⟩ := call.posted_finish hshows hs h.presents.named_cur
              hroom hcommitted.serverId hlocal h.current
            rw [hshows'.catalog_unique hshows'']
            exact hposted
    | commit notify => exact h.current
    | drop => exact h.committed
    | _ => exact h.current

theorem Journaled.posted (h : Journaled stage journals) :
    ∃ base cur, stage.Posted journals base cur := by
  induction h with
  | start hstart hfresh =>
      have hposted := Catalog.Posted.initial
      exact ⟨_, _, .start hstart hfresh, hposted _, hposted _⟩
  | step h hstep hlocal ih =>
      obtain ⟨base, cur, hposted⟩ := ih
      exact hstep.posted hlocal hposted

end Stage

/-- The live counters are those of the journal, and count what it says. -/
structure Transaction.Balances (t : Transaction) (journal : Journal) : Prop where
  live_iff : ∀ group name, ∃ id?, Index.liveId? t group name = .ok id? ∧
    (id?.isSome = true ↔ journal.Lists group name)
  total : ∀ group name, journal.Lists group name →
    Index.totalOf t group name = .ok (Journal.deltas group name journal).sum
  missing : ∀ group name, ¬ journal.Lists group name →
    Index.totalOf t group name = .error (.counter (.notFound group name))

theorem Catalog.Posted.transaction_balances {c : Catalog} {journal : Journal} {t : Transaction}
    (h : c.Posted journal) (hshows : t.trees.Shows c.ledger) : t.Balances journal := by
  have hlive : ∀ group name, c.Live group name ↔ journal.Lists group name := by
    intro group name
    rw [h.live_iff, Journal.lists_iff]
  constructor
  case live_iff =>
    intro group name
    refine ⟨_, index_liveId? hshows, ?_⟩
    rw [isSome_liveId?_iff, hlive]
  case total =>
    intro group name hlists
    exact (h.totals group name).index_totalOf hshows ((hlive group name).2 hlists)
  case missing =>
    intro group name hnot
    exact index_totalOf_of_not_live hshows (mt (hlive group name).1 hnot)

namespace Stage

/-- Calls of one writer post one after another. -/
theorem Journaled.calls {engine : Engine} (calls : List Call) {s : Session} {journals : Journals}
    {c : Catalog} (h : Journaled (writing engine s) journals)
    (hholds : (writing engine s).Holds c) (hroom : c.HasRoom (calls.map Call.writes).sum)
    (hlocal : ∀ call ∈ calls, call.replicates = false) :
    Journaled (writing engine (calls.foldl (fun s call => call.finish s) s))
      ⟨journals.committed, Call.journal calls s ++ journals.current⟩ := by
  induction calls generalizing s journals c with
  | nil => exact h
  | cons call rest ih =>
      rw [List.map_cons, List.sum_cons] at hroom
      obtain ⟨hstep, c', hholds', hroom'⟩ := hholds.call hroom
      have hrest := ih (h.step hstep (hlocal call List.mem_cons_self)) hholds' hroom'
        fun call' hcall' => hlocal call' (.tail _ hcall')
      rw [Call.journal, List.append_assoc]
      exact hrest

/-- On a store to which nothing is replicated, readers find the counters of the committed journal,
and the open writer those of the current one. -/
theorem Journaled.balances {stage : Stage} {journals : Journals} (h : Journaled stage journals) :
    stage.reader.Balances journals.committed ∧ stage.transaction.Balances journals.current := by
  obtain ⟨base, cur, hposted⟩ := h.posted
  have hholds : stage.Holds cur := holds_iff_carries.2 ⟨base, hposted.presents.carries⟩
  exact ⟨hposted.committed.transaction_balances hposted.presents.keeps.shows,
    hposted.current.transaction_balances hholds.transaction_shows⟩

/-- A counter is deleted and revived, and another one wraps around. -/
def revival : List Call :=
  [.store "group" "name" 5, .delete "group" "name", .purge, .store "group" "name" 2,
    .store "group" "other" Int64.maxValue, .store "group" "other" 1]

theorem balances_of_revival : ∃ stage journals, Journaled stage journals ∧
    journals.committed = [.store "group" "other" 1, .store "group" "other" Int64.maxValue,
      .store "group" "name" 2, .delete "group" "name", .store "group" "name" 5] ∧
    stage.reader.Balances journals.committed ∧
    Index.totalOf stage.reader "group" "name" = .ok 2 ∧
    Index.totalOf stage.reader "group" "other" = .ok Int64.minValue ∧
    Index.totalOf stage.reader "group" "third" =
      .error (.counter (.notFound "group" "third")) := by
  obtain ⟨store, hstart, hholds⟩ :=
    Opening.exists_start_empty (rfl : plainOpening.config.validate = .ok ()) (by decide) (by decide)
  have hopen := store.node.openWriter_of_unlocked hholds.unlocked
  have hopened := (Journaled.start hstart (by decide)).step (.openWriter hopen) rfl
  have hzero : (0 : UInt64).toNat + (revival.map Call.writes).sum < UInt64.size := by decide
  have hcalls : Journaled (writing _ _) ⟨[], _ ++ []⟩ :=
    hopened.calls revival (c := .initial plainOpening.fresh)
      ⟨hholds.keeps.sound, hholds.keeps.records, store.node, _, hholds.keeps,
        hholds.keeps.shows_firstWriter⟩ ⟨hzero, hzero⟩ (by decide)
  have hjournal : (match plainOpening.start .empty with
      | .ok store =>
          Call.journal revival ⟨store.node, store.node.firstWriter store.engine.committed⟩
      | .error _ => []) =
      [.store "group" "other" 1, .store "group" "other" Int64.maxValue,
        .store "group" "name" 2, .delete "group" "name", .store "group" "name" 5] := by
    decide +kernel
  rw [hstart] at hjournal
  dsimp only at hjournal
  rw [List.append_nil, hjournal] at hcalls
  have hcommit := hcalls.step (.commit true) rfl
  have hbalances := hcommit.balances.1
  refine ⟨_, _, hcommit, rfl, hbalances, hbalances.total _ _ ⟨2, rfl⟩,
    hbalances.total _ _ ⟨1, rfl⟩, hbalances.missing _ _ ?_⟩
  rintro ⟨_, hlast⟩
  cases hlast

end Stage

end CounterMesh
