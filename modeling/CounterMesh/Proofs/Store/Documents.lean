import CounterMesh.Proofs.Replication.Document
import CounterMesh.Proofs.Replication.Message
import CounterMesh.Proofs.Store.Histories
import CounterMesh.Proofs.Store.Initialization
import CounterMesh.Proofs.Store.Preserved

/-!
# Replication documents in the life of a store

The replication document is an entry of the metadata, next to the sequences that
every write of a slot moves on. A store on any content is followed through calls
of all kinds, commits, drops, openings and restarts from its file: readers find
the document that was committed last, and an open writer the one that it set,
each exactly as it was given.
-/

namespace CounterMesh

namespace Transaction

variable {t t' : Transaction}

/-- The entry of the document, or why there is no telling. -/
def documentEntry (t : Transaction) : Except Error (Option Bytes) :=
  t.get Layout.metadata Layout.replicationKey

theorem replicationDocument?_congr (h : t'.documentEntry = t.documentEntry) :
    Index.replicationDocument? t' = Index.replicationDocument? t := by
  rw [documentEntry, documentEntry] at h
  rw [Index.replicationDocument?, Index.replicationDocument?, h]

theorem replicationDocument?_of_entry {document : ReplicationDocument}
    (h : t.documentEntry = .ok (some (Bytes.ofText document.toJson.render))) :
    Index.replicationDocument? t = .ok (some document) := by
  rw [documentEntry] at h
  rw [Index.replicationDocument?, h]
  simp only [bind, Except.bind, ReplicationDocument.ofBytes?_render]
  rfl

/-- A tree of which an entry can be read takes a value under any key. -/
theorem exists_put {name : String} {key : Bytes} {found : Option Bytes}
    (hmode : t.mode = .readWrite) (hget : t.get name key = .ok found) (value : Bytes) :
    ∃ t', t.put name key value = .ok t' ∧ t'.mode = .readWrite ∧
      t'.get name key = .ok (some value) := by
  obtain ⟨entries, hplain, _⟩ := exists_of_bind_eq_ok hget
  refine ⟨t.setTree name (.plain (entries.insert key value)), ?_, hmode, ?_⟩
  · rw [put, allow, hmode, hplain]
    rfl
  · rw [get, plain, tree_setTree_self]
    exact congrArg Except.ok (OrdMap.get?_insert_self _ _ _)

end Transaction

namespace Write

variable {α ν : Type} {view : Session → ν}

/-- What a session shows of its document: whether it may write, and the entry. -/
def documentView (s : Session) : Mode × Except Error (Option Bytes) :=
  (s.writer.transaction.mode, s.writer.transaction.documentEntry)

/-- Of the metadata, writes of slots and purges change the sequences only. -/
theorem aside_document : Aside .all documentView where
  apart := by
    intro s name key t' htouches hsame
    have hentry : t'.documentEntry = s.writer.transaction.documentEntry := by
      refine hsame.get_eq ?_
      rintro ⟨rfl, rfl⟩
      obtain ⟨q, h⟩ := htouches.metadata rfl
      cases q with
      | etag => exact absurd h (by decide)
      | counterId => exact absurd h (by decide)
    exact Prod.ext hsame.mode hentry
  sequence := fun q _ _ => by cases q <;> rfl
  signal := fun _ _ => rfl

theorem Preserves.discard {op : Write α} (h : Preserves view op) : Preserves view (discard op) :=
  fun s => Call.leaves_discard (h s)

theorem preserves_alreadyApplied (entry : FeedEntry) :
    Preserves view (alreadyApplied entry) := by
  refine Preserves.bind (fun _ => .inl ⟨_, _, rfl, rfl⟩) fun own => ?_
  by_cases hown : entry.serverId = own
  · rw [if_pos hown]
    exact .pure _
  · rw [if_neg hown]
    refine preserves_query.bind fun current => ?_
    by_cases hcurrent : current = some entry.value
    · rw [if_pos hcurrent]
      exact preserves_query.bind fun _ => .pure _
    · rw [if_neg hcurrent]
      exact .pure _

theorem preserves_recordPeerEtag (happart : Apart .all view) (serverId : ServerId)
    (etag : Etag) : Preserves view (recordPeerEtag serverId etag) :=
  preserves_put happart (touches_of_ne (by decide) _)

section Messages

variable (haside : Aside .all view)
variable (hchanges : ∀ (s : Session) changes,
  view { s with writer := { s.writer with changes } } = view s)

include haside hchanges

theorem preserves_applyEntries (entries : List FeedEntry) :
    Preserves view (applyEntries entries) := by
  induction entries with
  | nil => exact .pure _
  | cons entry rest ih =>
      refine (preserves_alreadyApplied entry).bind fun skips => ?_
      cases skips with
      | true => exact ih.bind fun _ => .pure _
      | false =>
          exact (preserves_storeReplicated haside hchanges).bind fun _ => ih.bind fun _ => .pure _

theorem preserves_applyMessage (message : Message) : Preserves view (applyMessage message) := by
  refine (preserves_applyEntries haside hchanges message.entries).bind fun outcome => ?_
  cases message.lastEtag with
  | none => exact .pure _
  | some etag =>
      refine preserves_query.bind fun current => ?_
      exact (preserves_recordPeerEtag haside.apart _ _).bind fun _ => .pure _

end Messages

/-- An update sets the entry, wherever it can be read. -/
theorem returns_updateReplication_of_entry {s : Session} {found : Option Bytes}
    (h : documentView s = (.readWrite, .ok found)) (document : ReplicationDocument) :
    Returns (updateReplication document) s fun _ s' =>
      documentView s' = (.readWrite, .ok (some (Bytes.ofText document.toJson.render))) := by
  obtain ⟨hmode, hentry⟩ := Prod.mk.inj h
  obtain ⟨t', hput, hmode', hget'⟩ := Transaction.exists_put hmode hentry
    (Bytes.ofText document.toJson.render)
  have hmutate : Returns (mutate fun t => t.put Layout.metadata Layout.replicationKey
      (Bytes.ofText document.toJson.render)) s fun _ s' => s' = s.withTransaction t' :=
    returns_mutate hput
  refine hmutate.bind ?_
  rintro _ _ rfl
  refine returns_signal.mono ?_
  rintro _ _ rfl
  exact Prod.ext hmode' hget'

end Write

namespace Call

/-- The document that a call sets. -/
def document? : Call → Option ReplicationDocument
  | updateReplication document => some document
  | _ => none

/-- A call that sets no document leaves alone whatever the operations leave alone. -/
theorem preserves_operation {ν : Type} {view : Session → ν}
    (haside : Write.Aside .all view)
    (hchanges : ∀ (s : Session) changes,
      view { s with writer := { s.writer with changes } } = view s)
    (hclock : ∀ (s : Session) clock, view { s with node := { s.node with clock } } = view s)
    {call : Call} (h : call.document? = none) : Write.Preserves view call.operation := by
  cases call with
  | store group name delta => exact (Write.preserves_store haside hchanges).discard
  | storeReplicated group name serverId sign value =>
      exact (Write.preserves_storeReplicated haside hchanges).discard
  | reset group name => exact (Write.preserves_reset haside hchanges).discard
  | delete group name => exact Write.preserves_delete_counter haside hchanges hclock
  | purge =>
      have hpurge : Write.Preserves view Write.purgeBatch := fun s =>
        (Write.leaves_purgeBatch haside.apart s).mono fun _ heq => heq.trans (hclock s _)
      exact hpurge.discard
  | apply message => exact (Write.preserves_applyMessage haside hchanges message).discard
  | recordPeerEtag serverId etag =>
      exact Write.preserves_recordPeerEtag haside.apart serverId etag
  | updateReplication document => cases h

/-- What a session shows of its document after a call. -/
theorem documentView_finish (call : Call) {s : Session} {found : Option Bytes}
    (h : Write.documentView s = (.readWrite, .ok found)) :
    Write.documentView (call.finish s) = (.readWrite, .ok (match call.document? with
      | some document => some (Bytes.ofText document.toJson.render)
      | none => found)) := by
  cases hdocument : call.document? with
  | none =>
      have hpreserves := preserves_operation Write.aside_document (fun _ _ => rfl)
        (fun _ _ => rfl) hdocument
      exact (call.finish_of_leaves (hpreserves s)).trans h
  | some document =>
      cases call with
      | updateReplication _ =>
          cases hdocument
          have hreturns := Write.returns_updateReplication_of_entry h document
          exact finish_of_leaves (.updateReplication document)
            (hreturns.leaves fun _ _ heq => heq)
      | _ => cases hdocument

end Call

/-- The document in a content; without metadata there is none. -/
def Database.replicationDocument? (db : Database) : Except Error (Option ReplicationDocument) :=
  match db.get? Layout.metadata with
  | none => .ok none
  | some _ => Index.replicationDocument? ⟨.read, db⟩

/-- The content has the document `answer`, or the fault `answer`, in metadata that can be read. -/
structure Database.Documents (db : Database) (answer : Except Error (Option ReplicationDocument)) :
    Prop where
  readable : ∃ found, Transaction.documentEntry ⟨.read, db⟩ = .ok found
  answers : Index.replicationDocument? ⟨.read, db⟩ = answer

theorem Opening.documents_of_start {opening : Opening} {db : Database} {store : Store}
    (h : opening.start (.ofDatabase db) = .ok store) :
    store.engine.committed.Documents db.replicationDocument? := by
  obtain ⟨_, _, t₃, hsteps⟩ := Opening.exists_of_start h
  obtain ⟨entries, entries', hbefore, hafter, hentries, _, _⟩ := hsteps.initializes.metadata
  have hcommitted : store.engine.committed = t₃.trees := by
    rw [hsteps.engine, Engine.commit, hsteps.mode]
  have hsame : entries'.get? Layout.replicationKey = entries.get? Layout.replicationKey := by
    rw [hentries]
    exact Option.or_none
  have hentry : Transaction.documentEntry ⟨.read, t₃.trees⟩ =
      .ok (entries.get? Layout.replicationKey) :=
    (Opening.get_of_metadata hafter _).trans (congrArg Except.ok hsame)
  rw [hcommitted]
  refine ⟨⟨_, hentry⟩, ?_⟩
  rw [Database.replicationDocument?]
  rcases hbefore with hbefore | ⟨hbefore, rfl⟩
  · rw [hbefore]
    exact Transaction.replicationDocument?_congr
      (hentry.trans (Opening.get_of_metadata (t := ⟨.read, db⟩) hbefore _).symm)
  · rw [hbefore, Index.replicationDocument?]
    rw [Transaction.documentEntry] at hentry
    rw [hentry]
    rfl

/-- An opening finds the document that was there. -/
theorem Database.Documents.start {opening : Opening} {db : Database} {store : Store}
    {answer : Except Error (Option ReplicationDocument)} (h : db.Documents answer)
    (hstart : opening.start (.ofDatabase db) = .ok store) :
    store.engine.committed.Documents answer := by
  obtain ⟨⟨found, hentry⟩, rfl⟩ := h
  have hdocuments := Opening.documents_of_start hstart
  have hsome : db.replicationDocument? = Index.replicationDocument? ⟨.read, db⟩ := by
    rw [Database.replicationDocument?]
    cases htree : db.get? Layout.metadata with
    | some tree => rfl
    | none =>
        rw [Transaction.documentEntry, Transaction.get, Transaction.plain, Transaction.tree,
          htree] at hentry
        cases hentry
  rwa [hsome] at hdocuments

/-- What a reader and an open writer have to find as the document. -/
structure Answers where
  committed : Except Error (Option ReplicationDocument)
  current : Except Error (Option ReplicationDocument)

/-- An update sets the document of its writer, a commit publishes it, and a drop discards it. -/
def Answers.after (answers : Answers) : Event → Answers
  | .call call =>
    match call.document? with
    | some document => { answers with current := .ok (some document) }
    | none => answers
  | .commit _ => ⟨answers.current, answers.current⟩
  | .drop => ⟨answers.committed, answers.committed⟩
  | _ => answers

namespace Stage

/-- The stages of a store that was opened on the content of a file, with what has to be found as
its document. -/
inductive Updated : Stage → Answers → Prop where
  | start {file : Option Bytes} {db : Database} {opening : Opening} {store : Store}
      (hfile : Database.ofFile file = .ok db)
      (hstart : opening.start (.ofDatabase db) = .ok store) :
      Updated (idle store) ⟨db.replicationDocument?, db.replicationDocument?⟩
  | next {stage stage' : Stage} {event : Event} {answers : Answers}
      (h : Updated stage answers) (hnext : Happens stage event stage') :
      Updated stage' (answers.after event)

/-- The stage has these documents: in what was committed, and in the trees of an open writer. -/
structure Finds (stage : Stage) (answers : Answers) : Prop where
  dense : stage.Dense
  committed : stage.engine.committed.Documents answers.committed
  current : stage.transaction.trees.Documents answers.current
  mode : ∀ engine s, stage = writing engine s → s.writer.transaction.mode = .readWrite

variable {stage stage' : Stage} {event : Event} {answers : Answers}

theorem Finds.idle {store : Store} {answer : Except Error (Option ReplicationDocument)}
    (hdense : store.engine.committed.Dense) (h : store.engine.committed.Documents answer) :
    (idle store).Finds ⟨answer, answer⟩ := by
  refine ⟨⟨hdense, hdense⟩, h, h, ?_⟩
  rintro _ _ ⟨⟩

/-- A store that is opened on what was committed finds its document again. -/
theorem Finds.reopen {store store' : Store} {opening : Opening}
    (h : (Stage.idle store).Finds answers)
    (hstart : opening.start (.ofDatabase store.engine.committed) = .ok store') :
    (Stage.idle store').Finds answers := by
  have hsame : answers.current = answers.committed :=
    h.current.answers.symm.trans h.committed.answers
  obtain ⟨committed, current⟩ := answers
  cases hsame
  exact .idle (Opening.dense_start h.dense.committed hstart) (h.committed.start hstart)

theorem Finds.call {engine : Engine} {s : Session} (h : (writing engine s).Finds answers)
    (call : Call) : (writing engine (call.finish s)).Finds (answers.after (.call call)) := by
  obtain ⟨found, hfound⟩ := h.current.readable
  have hview : Write.documentView s = (.readWrite, .ok found) :=
    Prod.ext (h.mode engine s rfl) hfound
  obtain ⟨hmode, hentry⟩ := Prod.mk.inj (call.documentView_finish hview)
  have hdense : (writing engine (call.finish s)).Dense :=
    ⟨h.dense.committed, call.dense_finish h.dense.transaction⟩
  rw [Answers.after]
  cases hdocument : call.document? with
  | none =>
      rw [hdocument] at hentry
      refine ⟨hdense, h.committed, ⟨⟨_, hentry⟩, ?_⟩, ?_⟩
      · exact (Transaction.replicationDocument?_congr (hentry.trans hfound.symm)).trans
          h.current.answers
      · rintro _ _ ⟨⟩
        exact hmode
  | some document =>
      rw [hdocument] at hentry
      refine ⟨hdense, h.committed, ⟨⟨_, hentry⟩, ?_⟩, ?_⟩
      · exact Transaction.replicationDocument?_of_entry (t := ⟨.read, _⟩) hentry
      · rintro _ _ ⟨⟩
        exact hmode

/-- Every event finds and leaves the documents as it should. -/
theorem Happens.finds (hnext : Happens stage event stage') (h : stage.Finds answers) :
    stage'.Finds (answers.after event) := by
  cases hnext with
  | call call => exact h.call call
  | turn hturn =>
      have hstep := hturn.toStep h.dense
      have hdense := hstep.dense h.dense
      cases hstep with
      | @openWriter store writer engine hopen =>
          obtain ⟨rfl, rfl⟩ := Node.eq_of_openWriter hopen
          refine ⟨hdense, h.committed, h.current, ?_⟩
          rintro _ _ ⟨⟩
          rfl
      | call call hetag hcounterId => exact h.call call
      | @commit engine s notify =>
          have hcommitted : (s.node.commit engine s.writer notify).2.committed =
              s.writer.transaction.trees := by
            show (engine.commit s.writer.transaction).committed = _
            rw [Engine.commit, h.mode engine s rfl]
          exact .idle hdense.committed (hcommitted ▸ h.current)
      | @drop engine s =>
          have hcommitted : (engine.drop s.writer.transaction).committed = engine.committed := by
            rw [Engine.drop, h.mode engine s rfl]
          exact .idle hdense.committed (hcommitted ▸ h.committed)
      | reopen hstart => exact h.reopen hstart
      | outside clock signal =>
          refine ⟨hdense, h.committed, h.current, ?_⟩
          rintro _ _ ⟨⟩
      | @outsideWriting engine s clock signal =>
          refine ⟨hdense, h.committed, h.current, ?_⟩
          rintro _ _ ⟨⟩
          exact h.mode engine s rfl

theorem Updated.finds (h : Updated stage answers) : stage.Finds answers := by
  induction h with
  | start hfile hstart =>
      exact .idle (Opening.dense_start (Database.dense_of_ofFile hfile) hstart)
        (Opening.documents_of_start hstart)
  | next h hnext ih => exact hnext.finds ih

theorem Updated.playAll (events : List Event) (h : Updated stage answers)
    (hplay : stage.playAll events = some stage') :
    Updated stage' (events.foldl Answers.after answers) := by
  induction events generalizing stage answers with
  | nil =>
      cases hplay
      exact h
  | cons event rest ih =>
      obtain ⟨next, hnext, hplay⟩ := Option.bind_eq_some_iff.1 hplay
      exact ih (h.next (happens_of_play hnext)) hplay

/-- Messages and replication documents are read back from their texts, so that a message that was
sent as text does what the message itself does, in every session. Whatever happens to a store on
any content, readers find the document that was committed last, and an open writer the one that it
set last. -/
theorem Updated.documents_survive (h : Updated stage answers) (message : Message)
    (document : ReplicationDocument) (spacing : Json.Spacing) :
    (Message.parse? (String.ofList (Json.spaced spacing 0 message.toJson)) = some message ∧
      Message.parse? message.toJson.render = some message) ∧
    (ReplicationDocument.parse? (String.ofList (Json.spaced spacing 0 document.toJson)) =
        some document ∧
      ReplicationDocument.parse? document.toJson.render = some document ∧
      ReplicationDocument.ofBytes? (Bytes.ofText document.toJson.render) = some document) ∧
    (∀ s : Session, (Message.parse? message.toJson.render).map
        (fun received => (Write.applyMessage received).run s) =
      some ((Write.applyMessage message).run s)) ∧
    Index.replicationDocument? stage.reader = answers.committed ∧
    Index.replicationDocument? stage.transaction = answers.current := by
  have hfinds := h.finds
  have hmessage : Message.parse? message.toJson.render = some message := message.parse?_render
  refine ⟨⟨message.parse?_spaced spacing, hmessage⟩, ⟨document.parse?_spaced spacing,
    document.parse?_render, document.ofBytes?_render⟩, fun s => ?_, hfinds.committed.answers,
    hfinds.current.answers⟩
  rw [hmessage]
  rfl

/-- A message with a slot of the reserved id, with texts that have to be escaped and with the ends
of both ranges. -/
def Sample.message : Message where
  serverId := .nil
  entries := [{ group := "\"g\"", name := "\\n\u0000", serverId := .nil, sign := .negative,
                value := Int64.minValue, etag := 18446744073709551615 }]

/-- A document with an empty key and one without a key. -/
def Sample.document : ReplicationDocument where
  destinations :=
    [{ serverUrl := "https://\"a\\b\"/\u0007", storeName := "ü\n", apiKey := some "",
       disabled := true },
     { serverUrl := "", storeName := "b" }]

/-- A document is committed; a counter is deleted and a purge called; another document is set and
dropped, and the store opened again. -/
theorem documents_survive_of_dropped_update : ∃ stage,
    Updated stage ⟨.ok (some Sample.document), .ok (some Sample.document)⟩ ∧
    Index.replicationDocument? stage.reader = .ok (some Sample.document) ∧
    Message.parse? Sample.message.toJson.render = some Sample.message ∧
    ReplicationDocument.parse? Sample.document.toJson.render = some Sample.document := by
  let history : List Event :=
    [.openWriter, .call (.store "group" "name" 5), .call (.updateReplication Sample.document),
      .commit true, .openWriter, .call (.delete "group" "name"), .call .purge, .commit true,
      .openWriter, .call (.updateReplication {}), .drop, .reopen plainOpening]
  have hplays : (match plainOpening.start .empty with
      | .ok store => ((idle store).playAll history).isSome
      | .error _ => false) = true := by decide +kernel
  obtain ⟨store, hstart, _⟩ :=
    Opening.exists_start_empty (rfl : plainOpening.config.validate = .ok ()) (by decide) (by decide)
  rw [hstart] at hplays
  obtain ⟨stage, hplay⟩ := Option.isSome_iff_exists.1 hplays
  have hfile : Database.ofFile none = .ok .empty := rfl
  have hstarted : Updated (idle store) ⟨.ok none, .ok none⟩ := .start hfile hstart
  have hupdated : Updated stage ⟨.ok (some Sample.document), .ok (some Sample.document)⟩ :=
    hstarted.playAll history hplay
  obtain ⟨⟨_, hmessage⟩, ⟨_, hdocument, _⟩, _, hreader, _⟩ :=
    hupdated.documents_survive Sample.message Sample.document .tight
  exact ⟨stage, hupdated, hreader, hmessage, hdocument⟩

end Stage

end CounterMesh
