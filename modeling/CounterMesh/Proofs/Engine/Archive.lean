import CounterMesh.Engine.Archive
import CounterMesh.Proofs.Bytes.Hex
import CounterMesh.Proofs.Engine.Dense
import CounterMesh.Proofs.Json.Values
import CounterMesh.Proofs.Json.Written

/-!
# Saved databases are loaded again

Loading the file of a database gives the database back, with one exception: a
key without values is left out, from whatever file it is loaded. No key of a multi
tree is left without values by the operations of a transaction, so that nothing is
lost.
-/

namespace CounterMesh

namespace Tree

open Json (Written)

theorem written_entriesJson (tree : Tree) : tree.entriesJson.Written := by
  cases tree with
  | plain entries =>
      refine .record fun field hfield => ?_
      obtain ⟨entry, _, rfl⟩ := List.mem_map.1 hfield
      exact .text _
  | multi entries =>
      refine .record fun field hfield => ?_
      obtain ⟨entry, _, rfl⟩ := List.mem_map.1 hfield
      refine .arr fun item hitem => ?_
      obtain ⟨value, _, rfl⟩ := List.mem_map.1 hitem
      exact .text _

theorem written_toJson (tree : Tree) : tree.toJson.Written :=
  .record (List.forall_mem_cons.2
    ⟨.text _, List.forall_mem_singleton.2 tree.written_entriesJson⟩)

/-- The entries of a tree stand in an object, possibly in arrays, and are not nested further. -/
theorem isBuffered_entriesJson (tree : Tree) (depth : Nat) :
    Json.isBuffered (depth + 2) tree.entriesJson = true := by
  cases tree with
  | plain entries =>
      refine Json.isBuffered_record fun field hfield => ?_
      obtain ⟨entry, _, rfl⟩ := List.mem_map.1 hfield
      exact Json.isBuffered_text _ _
  | multi entries =>
      refine Json.isBuffered_record fun field hfield => ?_
      obtain ⟨entry, _, rfl⟩ := List.mem_map.1 hfield
      refine Json.isBuffered_arr fun item hitem => ?_
      obtain ⟨value, _, rfl⟩ := List.mem_map.1 hitem
      exact Json.isBuffered_text _ _

/-- A tree as its file lists it. -/
def toFile : Tree → FileTree
  | .plain entries =>
    .plain (.ofList (entries.toList.map (Prod.map Hex.encode Hex.encode)))
  | .multi entries =>
    .multi (.ofList (entries.toList.map
      (Prod.map Hex.encode fun values => values.keys.map Hex.encode)))

theorem ofEntries?_entriesJson (tree : Tree) :
    FileTree.ofEntries? tree.kind tree.entriesJson = some tree.toFile := by
  cases tree with
  | plain entries =>
      have hentries := Json.asEntries?_map Json.asText?
        (fun e : Bytes × Bytes => (Hex.encode e.1, Json.text (Hex.encode e.2)))
        (Prod.map Hex.encode Hex.encode) (fun e (_ : e ∈ entries.toList) => rfl)
        fun _ _ => Json.asText?_text _
      exact congrArg (Option.map fun list => FileTree.plain (.ofList list)) hentries
  | multi entries =>
      have hentries := Json.asEntries?_map (Json.asList? Json.asText?)
        (fun e : Bytes × OrdSet Bytes =>
          (Hex.encode e.1, .arr (e.2.keys.map fun value => Json.text (Hex.encode value))))
        (Prod.map Hex.encode fun values => values.keys.map Hex.encode)
        (fun e (_ : e ∈ entries.toList) => rfl)
        fun _ _ => Json.asList?_map fun _ _ => Json.asText?_text _
      exact congrArg (Option.map fun list => FileTree.multi (.ofList list)) hentries

@[simp] theorem ofTag?_tag (kind : TreeKind) : TreeKind.ofTag? kind.tag = some kind := by
  cases kind <;> rfl

theorem ofJson?_toJson (tree : Tree) : FileTree.ofJson? tree.toJson = some tree.toFile := by
  have hfields := Json.mapM_textOf?_record
    [("kind", Json.text tree.kind.tag), ("entries", tree.entriesJson)]
  have hkind : Json.field? [("kind", Json.text tree.kind.tag), ("entries", tree.entriesJson)]
      "kind" = some (some (.text tree.kind.tag)) := rfl
  have hentries : Json.field? [("kind", Json.text tree.kind.tag), ("entries", tree.entriesJson)]
      "entries" = some (some tree.entriesJson) := rfl
  have hbuffered : Json.isBuffered FileTree.maxDepth tree.entriesJson = true :=
    tree.isBuffered_entriesJson 122
  rw [toJson, Json.record, FileTree.ofJson?]
  simp only [hfields, hkind, hentries, Option.bind_eq_bind, Option.bind_some, Json.asText?_text,
    ofTag?_tag, List.all_cons, List.all_nil, hbuffered, Bool.or_true, Bool.and_true]
  exact (if_pos rfl).trans tree.ofEntries?_entriesJson

theorem decodeHex_encode (name : String) (bytes : Bytes) :
    FileTree.decodeHex name (Hex.encode bytes) = .ok bytes := by
  rw [FileTree.decodeHex, Hex.decode_encode]

/-- A set of byte strings is read from the list of its values. -/
theorem ofList_keys (values : OrdSet Bytes) :
    OrdMap.ofList (values.keys.map fun value => (value, ())) = values := by
  have hentries : values.keys.map (fun value => (value, ())) = values.toList := by
    rw [OrdMap.keys, List.map_map]
    exact List.map_id _
  rw [hentries, OrdMap.ofList_toList]

theorem decode_toFile (tree : Tree) (name : String)
    (hdense : ∀ entries, tree = .multi entries → entries.Dense) :
    tree.toFile.decode name = .ok tree := by
  cases tree with
  | plain entries =>
      obtain ⟨list, hread, hlist⟩ := entries.exists_mapM_ofList Hex.encode_injective Hex.encode
        (fun e => do
          let key ← FileTree.decodeHex name e.1
          return (key, ← FileTree.decodeHex name e.2)) id fun e _ => by
        simp only [Prod.map, decodeHex_encode]
        rfl
      rw [toFile, FileTree.decode, hread]
      simp only [List.map_id, bind, Except.bind, hlist]
      rfl
  | multi entries =>
      obtain ⟨list, hread, hlist⟩ := entries.exists_mapM_ofList Hex.encode_injective
        (fun values => values.keys.map Hex.encode) (fun e => do
          let values ← e.2.mapM (FileTree.decodeHex name)
          if values.isEmpty then return none
          else return some (← FileTree.decodeHex name e.1,
            OrdMap.ofList (values.map fun value => (value, ())))) some fun e he => by
        have hvalues : (e.2.keys.map Hex.encode).mapM (FileTree.decodeHex name) =
            .ok e.2.keys := by
          rw [List.mapM_map]
          refine (mapM_eq_pure (g := id) fun value _ => ?_).trans (congrArg _ (List.map_id _))
          exact decodeHex_encode name value
        have hne : e.2.keys.isEmpty = false := by
          rw [OrdMap.keys, List.isEmpty_map]
          exact hdense entries rfl e he
        simp only [Prod.map, hvalues, decodeHex_encode, bind, Except.bind, hne, ofList_keys]
        rfl
      rw [toFile, FileTree.decode, hread]
      simp only [bind, Except.bind, List.filterMap_map, Function.id_comp, List.filterMap_some,
        hlist]
      rfl

/-- A tree that is read from a file is dense: keys without values are passed over. -/
theorem dense_of_decode {tree : FileTree} {name : String} {entries : MultiTree}
    (h : tree.decode name = .ok (.multi entries)) : entries.Dense := by
  cases tree with
  | plain listed =>
      obtain ⟨_, _, h⟩ := exists_of_bind_eq_ok h
      cases h
  | multi listed =>
      obtain ⟨list, hread, h⟩ := exists_of_bind_eq_ok h
      cases h
      refine MultiTree.dense_iff.2 fun key values hget => ?_
      obtain ⟨read, hmem, hsome⟩ := List.mem_filterMap.1 (OrdMap.mem_of_get?_ofList hget)
      obtain rfl : read = some (key, values) := hsome
      obtain ⟨⟨text, texts⟩, _, hentry⟩ := exists_of_mapM_eq_ok hread _ hmem
      obtain ⟨bytes, _, hentry⟩ := exists_of_bind_eq_ok hentry
      cases hempty : bytes.isEmpty with
      | true =>
          rw [hempty] at hentry
          cases hentry
      | false =>
          rw [hempty] at hentry
          obtain ⟨_, _, hentry⟩ := exists_of_bind_eq_ok hentry
          cases hentry
          rw [OrdMap.isEmpty_ofList, List.isEmpty_map, hempty]

end Tree

namespace Database

variable {database : Database}

theorem written_toJson (database : Database) : database.toJson.Written := by
  refine .record (List.forall_mem_cons.2 ⟨.nat _, List.forall_mem_singleton.2 ?_⟩)
  refine .record fun field hfield => ?_
  obtain ⟨entry, _, rfl⟩ := List.mem_map.1 hfield
  exact entry.2.written_toJson

theorem ofJson?_toJson (database : Database) : ofJson? database.toJson =
    some (fileFormat, .ofList (database.toList.map (Prod.map id Tree.toFile))) := by
  have htrees := Json.asEntries?_map FileTree.ofJson?
    (fun e : String × Tree => (e.1, e.2.toJson)) (Prod.map id Tree.toFile)
    (fun e (_ : e ∈ database.toList) => rfl) fun e _ => e.2.ofJson?_toJson
  have hrecord : database.toJson.asRecord? ["_v", "trees"] =
      some [some (.nat fileFormat),
        some (.record (database.toList.map fun e => (e.1, e.2.toJson)))] :=
    Json.asRecord?_record _ _
  have hformat : (Json.nat fileFormat).asNatBelow? 256 = some fileFormat := by decide
  rw [ofJson?, hrecord]
  simp only [Option.bind_eq_bind, Option.bind_some, Option.map_some, Option.getD_some, hformat,
    htrees]
  rfl

/-- A database whose trees are dense is loaded as it was saved. -/
theorem load_save (h : database.Dense) : load database.save = .ok database := by
  obtain ⟨list, hread, hlist⟩ := database.exists_mapM_ofList Function.injective_id Tree.toFile
    (fun e => do return (e.1, ← e.2.decode e.1)) id fun e he => by
      have hdecode : e.2.toFile.decode e.1 = .ok e.2 := by
        refine e.2.decode_toFile e.1 fun entries htree => h e.1 entries ?_
        rw [← htree]
        exact OrdMap.get?_eq_some_iff.2 he
      simp only [Prod.map, id, hdecode]
      rfl
  rw [load, save, Json.parse?_pretty database.written_toJson, Option.bind_some, ofJson?_toJson]
  simp only [if_pos]
  rw [hread]
  simp only [List.map_id, bind, Except.bind, hlist]
  rfl

theorem ofFile_save (h : database.Dense) :
    ofFile (some (Bytes.ofText database.save)) = .ok database := by
  rw [ofFile]
  simp only [Bytes.text?_ofText, load_save h]

/-- Whatever the text of a file, the database that is loaded from it is dense. -/
theorem dense_of_load {text : String} (h : load text = .ok database) : database.Dense := by
  rw [load] at h
  split at h
  · cases h
  · next format trees _ =>
      split at h
      · obtain ⟨list, hread, h⟩ := exists_of_bind_eq_ok h
        cases h
        intro name entries hget
        obtain ⟨_, _, htree⟩ := exists_of_mapM_eq_ok hread _ (OrdMap.mem_of_get?_ofList hget)
        obtain ⟨tree, hdecode, htree⟩ := exists_of_bind_eq_ok htree
        cases htree
        exact Tree.dense_of_decode hdecode
      · cases h

theorem dense_of_ofFile {file : Option Bytes} (h : ofFile file = .ok database) :
    database.Dense := by
  cases file with
  | none =>
      cases h
      exact dense_empty
  | some bytes =>
      rw [ofFile] at h
      split at h
      · exact dense_of_load h
      · cases h

/-- A database comes back from its file, tree by tree and entry by entry, and is written there
again with the same text, exactly if no key of a multi tree is without values. -/
theorem dense_iff_reloads (database : Database) : database.Dense ↔
    ofFile (some (Bytes.ofText database.save)) = .ok database ∧
      (ofFile (some (Bytes.ofText database.save))).map save = .ok database.save := by
  constructor
  · intro h
    rw [ofFile_save h]
    exact ⟨rfl, rfl⟩
  · rintro ⟨h, _⟩
    exact dense_of_ofFile h

end Database

end CounterMesh
