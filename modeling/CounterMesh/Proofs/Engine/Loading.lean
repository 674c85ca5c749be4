import CounterMesh.Proofs.Bytes.Digits
import CounterMesh.Proofs.Engine.Archive

/-!
# Which files are loaded

A file that has the shape of a database is loaded if its format is the supported
one and the texts in its trees are hexadecimal. What the loader never looks at are
the keys of a multi tree that are listed without values: they are passed over
before they are read. Every other text of a tree is read, and the first one that is
not hexadecimal is reported with the name of its tree.
-/

namespace CounterMesh

theorem MultiTree.mem_pairs {entries : List (Bytes × OrdSet Bytes)} {key value : Bytes} :
    (key, value) ∈ pairs entries ↔ ∃ values, (key, values) ∈ entries ∧ value ∈ values.keys := by
  simp only [pairs, List.mem_flatMap, List.mem_map, Prod.mk.injEq]
  constructor
  · rintro ⟨⟨_, values⟩, hentry, _, hvalue, rfl, rfl⟩
    exact ⟨values, hentry, hvalue⟩
  · rintro ⟨values, hentry, hvalue⟩
    exact ⟨(key, values), hentry, value, hvalue, rfl, rfl⟩

deriving instance DecidableEq for FileTree

namespace Tree

/-- Each key of a tree with each of its values. -/
def pairs : Tree → List (Bytes × Bytes)
  | .plain entries => entries.toList
  | .multi entries => MultiTree.pairs entries.toList

end Tree

namespace FileTree

variable {tree : FileTree} {name : String} {error : Error}

def kind : FileTree → TreeKind
  | .plain _ => .plain
  | .multi _ => .multi

/-- The texts of the keys that a file lists. -/
def keys : FileTree → List String
  | .plain entries => entries.keys
  | .multi entries => entries.keys

/-- The text of each key with the text of each of its values. -/
def pairs : FileTree → List (String × String)
  | .plain entries => entries.toList
  | .multi entries => entries.toList.flatMap fun (key, values) => values.map (key, ·)

/-- A key that is listed without values. -/
def Bare (tree : FileTree) (key : String) : Prop :=
  key ∈ tree.keys ∧ ∀ value, (key, value) ∉ tree.pairs

/-- All texts are hexadecimal. -/
def WellFormed (tree : FileTree) : Prop :=
  (∀ key ∈ tree.keys, Hex.IsText key) ∧ ∀ pair ∈ tree.pairs, Hex.IsText pair.2

/-- All texts are hexadecimal, with the exception of keys that are listed without values. -/
def Readable (tree : FileTree) : Prop :=
  (∀ key ∈ tree.keys, ¬tree.Bare key → Hex.IsText key) ∧ ∀ pair ∈ tree.pairs, Hex.IsText pair.2

/-- A value, or a key that has one, is not hexadecimal. -/
def Faulty (tree : FileTree) (fault : Hex.Fault) : Prop :=
  ∃ pair ∈ tree.pairs, Hex.decode pair.1 = .error fault ∨ Hex.decode pair.2 = .error fault

/-- Different keys do not stand for the same bytes. -/
def Apart (tree : FileTree) : Prop :=
  ∀ key ∈ tree.keys, ∀ key' ∈ tree.keys, ∀ bytes,
    Hex.decode key = .ok bytes → Hex.decode key' = .ok bytes → key = key'

theorem mem_pairs_multi {entries : OrdMap String (List String)} {pair : String × String} :
    pair ∈ (multi entries).pairs ↔
      ∃ values, (pair.1, values) ∈ entries.toList ∧ pair.2 ∈ values := by
  simp only [pairs, List.mem_flatMap, List.mem_map]
  constructor
  · rintro ⟨⟨key, values⟩, hentry, value, hvalue, rfl⟩
    exact ⟨values, hentry, hvalue⟩
  · rintro ⟨values, hentry, hvalue⟩
    exact ⟨_, hentry, _, hvalue, rfl⟩

theorem mem_keys_of_mem_pairs {pair : String × String} (h : pair ∈ tree.pairs) :
    pair.1 ∈ tree.keys := by
  cases tree with
  | plain entries => exact List.mem_map_of_mem h
  | multi entries =>
      obtain ⟨values, hentry, _⟩ := mem_pairs_multi.1 h
      exact List.mem_map_of_mem hentry

/-- The texts that must be hexadecimal are those of the listed pairs. -/
theorem readable_iff :
    tree.Readable ↔ ∀ pair ∈ tree.pairs, Hex.IsText pair.1 ∧ Hex.IsText pair.2 := by
  constructor
  · intro h pair hpair
    refine ⟨h.1 pair.1 (mem_keys_of_mem_pairs hpair) fun hbare => hbare.2 pair.2 hpair, ?_⟩
    exact h.2 pair hpair
  · refine fun h => ⟨fun key hkey hbare => ?_, fun pair hpair => (h pair hpair).2⟩
    have hvalue : ∃ value, (key, value) ∈ tree.pairs := by
      by_contra hnone
      exact hbare ⟨hkey, not_exists.1 hnone⟩
    obtain ⟨value, hvalue⟩ := hvalue
    exact (h _ hvalue).1

theorem decodeHex_eq_ok {text : String} {bytes : Bytes} :
    decodeHex name text = .ok bytes ↔ Hex.decode text = .ok bytes := by
  rw [decodeHex]
  cases Hex.decode text <;> simp

theorem decodeHex_eq_error {text : String} (h : decodeHex name text = .error error) :
    ∃ fault, Hex.decode text = .error fault ∧ error = .engine (.corruptedState name fault) := by
  rw [decodeHex] at h
  cases hdecode : Hex.decode text with
  | error fault =>
      rw [hdecode] at h
      cases h
      exact ⟨fault, rfl, rfl⟩
  | ok bytes =>
      rw [hdecode] at h
      cases h

theorem ok_of_pair {pair : String × String} {entry : Bytes × Bytes}
    (h : (do
      let key ← decodeHex name pair.1
      return (key, ← decodeHex name pair.2)) = Except.ok entry) :
    Hex.decode pair.1 = .ok entry.1 ∧ Hex.decode pair.2 = .ok entry.2 := by
  obtain ⟨key, hkey, h⟩ := exists_of_bind_eq_ok h
  obtain ⟨value, hvalue, h⟩ := exists_of_bind_eq_ok h
  cases h
  exact ⟨decodeHex_eq_ok.1 hkey, decodeHex_eq_ok.1 hvalue⟩

/-- A key is read only if it has values. -/
theorem exists_of_entry {key : String} {values : List String}
    {entry : Option (Bytes × OrdSet Bytes)}
    (h : (do
      let values ← values.mapM (decodeHex name)
      if values.isEmpty then return none
      else
        return some (← decodeHex name key, OrdMap.ofList (values.map fun value => (value, ())))) =
          Except.ok entry) :
    ∃ read, values.mapM (decodeHex name) = .ok read ∧
      (read = [] ∧ entry = none ∨ read ≠ [] ∧ ∃ bytes, Hex.decode key = .ok bytes ∧
        entry = some (bytes, .ofList (read.map fun value => (value, ())))) := by
  obtain ⟨read, hread, h⟩ := exists_of_bind_eq_ok h
  refine ⟨read, hread, ?_⟩
  cases read with
  | nil =>
      cases h
      exact .inl ⟨rfl, rfl⟩
  | cons value rest =>
      obtain ⟨bytes, hkey, h⟩ := exists_of_bind_eq_ok h
      cases h
      exact .inr ⟨List.cons_ne_nil _ _, bytes, decodeHex_eq_ok.1 hkey, rfl⟩

theorem readable_of_decode {read : Tree} (h : tree.decode name = .ok read) : tree.Readable := by
  refine readable_iff.2 fun pair hpair => ?_
  cases tree with
  | plain entries =>
      obtain ⟨list, hlist, _⟩ := exists_of_bind_eq_ok h
      obtain ⟨entry, _, hread⟩ := exists_mem_of_mapM_eq_ok hlist pair hpair
      obtain ⟨hkey, hvalue⟩ := ok_of_pair hread
      exact ⟨Hex.exists_decode_iff.1 ⟨_, hkey⟩, Hex.exists_decode_iff.1 ⟨_, hvalue⟩⟩
  | multi entries =>
      obtain ⟨values, hmem, hvalue⟩ := mem_pairs_multi.1 hpair
      obtain ⟨list, hlist, _⟩ := exists_of_bind_eq_ok h
      obtain ⟨entry, _, hentry⟩ := exists_mem_of_mapM_eq_ok hlist _ hmem
      obtain ⟨read, hread, hentry⟩ := exists_of_entry hentry
      obtain ⟨value, hvalue, htext⟩ := exists_mem_of_mapM_eq_ok hread _ hvalue
      rcases hentry with ⟨rfl, _⟩ | ⟨_, key, hkey, _⟩
      · cases hvalue
      · exact ⟨Hex.exists_decode_iff.1 ⟨key, hkey⟩,
          Hex.exists_decode_iff.1 ⟨value, decodeHex_eq_ok.1 htext⟩⟩

/-- The failure to read a tree names the tree and the fault of one of its texts. -/
theorem faulty_of_decode (h : tree.decode name = .error error) :
    ∃ fault, tree.Faulty fault ∧ error = .engine (.corruptedState name fault) := by
  cases tree with
  | plain entries =>
      rcases error_of_bind h with h | ⟨list, _, h⟩
      · obtain ⟨pair, hpair, hentry⟩ := exists_of_mapM_eq_error h
        rcases error_of_bind hentry with hkey | ⟨key, _, hentry⟩
        · obtain ⟨fault, hfault, rfl⟩ := decodeHex_eq_error hkey
          exact ⟨fault, ⟨pair, hpair, .inl hfault⟩, rfl⟩
        · rcases error_of_bind hentry with hvalue | ⟨_, _, hentry⟩
          · obtain ⟨fault, hfault, rfl⟩ := decodeHex_eq_error hvalue
            exact ⟨fault, ⟨pair, hpair, .inr hfault⟩, rfl⟩
          · cases hentry
      · cases h
  | multi entries =>
      rcases error_of_bind h with h | ⟨list, _, h⟩
      · obtain ⟨⟨key, values⟩, hmem, hentry⟩ := exists_of_mapM_eq_error h
        rcases error_of_bind hentry with hvalues | ⟨read, hread, hentry⟩
        · obtain ⟨value, hvalue, htext⟩ := exists_of_mapM_eq_error hvalues
          obtain ⟨fault, hfault, rfl⟩ := decodeHex_eq_error htext
          exact ⟨fault, ⟨(key, value), mem_pairs_multi.2 ⟨values, hmem, hvalue⟩, .inr hfault⟩, rfl⟩
        · cases read with
          | nil => cases hentry
          | cons bytes rest =>
              -- The key is looked at because there is a value.
              obtain ⟨value, hvalue, _⟩ := exists_of_mapM_eq_ok hread bytes List.mem_cons_self
              rcases error_of_bind hentry with hkey | ⟨_, _, hentry⟩
              · obtain ⟨fault, hfault, rfl⟩ := decodeHex_eq_error hkey
                exact ⟨fault, ⟨(key, value), mem_pairs_multi.2 ⟨values, hmem, hvalue⟩, .inl hfault⟩,
                  rfl⟩
              · cases hentry
      · cases h

theorem not_faulty (h : tree.Readable) (fault : Hex.Fault) : ¬tree.Faulty fault := by
  rintro ⟨pair, hpair, hfault⟩
  obtain ⟨⟨key, hkey⟩, ⟨value, hvalue⟩⟩ :=
    (readable_iff.1 h pair hpair).imp Hex.exists_decode_iff.2 Hex.exists_decode_iff.2
  rcases hfault with hfault | hfault
  · rw [hkey] at hfault
    cases hfault
  · rw [hvalue] at hfault
    cases hfault

theorem exists_decode_iff : (∃ read, tree.decode name = .ok read) ↔ tree.Readable := by
  refine ⟨fun ⟨_, h⟩ => readable_of_decode h, fun hreadable => ?_⟩
  cases h : tree.decode name with
  | ok read => exact ⟨read, rfl⟩
  | error error =>
      obtain ⟨fault, hfault, _⟩ := faulty_of_decode h
      exact absurd hfault (not_faulty hreadable fault)

theorem kind_of_decode {read : Tree} (h : tree.decode name = .ok read) : read.kind = tree.kind := by
  cases tree with
  | plain entries =>
      obtain ⟨_, _, h⟩ := exists_of_bind_eq_ok h
      cases h
      rfl
  | multi entries =>
      obtain ⟨_, _, h⟩ := exists_of_bind_eq_ok h
      cases h
      rfl

/-- Keys that are listed as different texts are read as different keys. -/
theorem Apart.pairwise {β : Type} (hapart : tree.Apart) {texts : List (String × β)}
    (hnodup : (texts.map (·.1)).Nodup) (htexts : ∀ entry ∈ texts, entry.1 ∈ tree.keys) :
    texts.Pairwise fun a b => ∀ bytes, Hex.decode a.1 = .ok bytes → Hex.decode b.1 ≠ .ok bytes := by
  refine (List.Pairwise.and_mem.1 (List.pairwise_map.1 hnodup)).imp ?_
  rintro a b ⟨ha, hb, hne⟩ bytes hdecode hdecode'
  exact hne (hapart a.1 (htexts a ha) b.1 (htexts b hb) bytes hdecode hdecode')

theorem mem_pairs_of_decode_plain {entries : OrdMap String String} {read : Tree}
    (h : (plain entries).decode name = .ok read) (hapart : (plain entries).Apart)
    {key value : Bytes} : (key, value) ∈ read.pairs ↔
      ∃ pair ∈ (plain entries).pairs, Hex.decode pair.1 = .ok key ∧
        Hex.decode pair.2 = .ok value := by
  obtain ⟨list, hlist, h⟩ := exists_of_bind_eq_ok h
  cases h
  have hnodup : (list.map (·.1)).Nodup := by
    refine List.pairwise_map.2 (pairwise_of_mapM_eq_ok hlist
      (hapart.pairwise entries.nodup_keys fun _ he => List.mem_map_of_mem he) ?_)
    intro a a' b b' hab hb hb' heq
    exact hab _ (ok_of_pair hb).1 (heq ▸ (ok_of_pair hb').1)
  refine (OrdMap.mem_ofList hnodup).trans ⟨fun hmem => ?_, ?_⟩
  · obtain ⟨pair, hpair, hread⟩ := exists_of_mapM_eq_ok hlist _ hmem
    exact ⟨pair, hpair, ok_of_pair hread⟩
  · rintro ⟨pair, hpair, hkey, hvalue⟩
    obtain ⟨entry, hmem, hread⟩ := exists_mem_of_mapM_eq_ok hlist pair hpair
    obtain ⟨hkey', hvalue'⟩ := ok_of_pair hread
    obtain rfl : entry = (key, value) := Prod.ext
      (Except.ok.inj (hkey'.symm.trans hkey)) (Except.ok.inj (hvalue'.symm.trans hvalue))
    exact hmem

/-- The values under a key are those that are listed, in whatever order and however often. -/
theorem mem_keys_ofList {values : List Bytes} {value : Bytes} :
    value ∈ OrdMap.keys (.ofList (values.map fun value => (value, ()))) ↔ value ∈ values := by
  rw [← OrdMap.contains_iff_mem_keys, OrdMap.contains_ofList, List.map_map]
  exact (congrArg (value ∈ ·) (List.map_id values)).to_iff

theorem mem_pairs_of_decode_multi {entries : OrdMap String (List String)} {read : Tree}
    (h : (multi entries).decode name = .ok read) (hapart : (multi entries).Apart)
    {key value : Bytes} : (key, value) ∈ read.pairs ↔
      ∃ pair ∈ (multi entries).pairs, Hex.decode pair.1 = .ok key ∧
        Hex.decode pair.2 = .ok value := by
  obtain ⟨list, hlist, h⟩ := exists_of_bind_eq_ok h
  cases h
  have hnodup : ((list.filterMap id).map (·.1)).Nodup := by
    refine List.pairwise_map.2 (List.pairwise_filterMap.2 (pairwise_of_mapM_eq_ok hlist
      (hapart.pairwise entries.nodup_keys fun _ he => List.mem_map_of_mem he) ?_))
    rintro a a' b b' hab hb hb' e rfl e' rfl heq
    obtain ⟨_, _, ⟨_, hnone⟩ | ⟨_, key, hkey, hsome⟩⟩ := exists_of_entry hb
    · cases hnone
    · obtain ⟨_, _, ⟨_, hnone⟩ | ⟨_, key', hkey', hsome'⟩⟩ := exists_of_entry hb'
      · cases hnone
      · cases hsome
        cases hsome'
        have heq : key = key' := heq
        exact hab _ hkey (heq ▸ hkey')
  have hloaded : ∀ e, e ∈ (OrdMap.ofList (list.filterMap id)).toList ↔ some e ∈ list :=
    fun e => (OrdMap.mem_ofList hnodup).trans (by simp)
  rw [Tree.pairs, MultiTree.mem_pairs]
  constructor
  · rintro ⟨set, hmem, hvalue⟩
    obtain ⟨⟨text, texts⟩, hentry, hread⟩ := exists_of_mapM_eq_ok hlist _ ((hloaded _).1 hmem)
    obtain ⟨bytes, hbytes, ⟨_, hnone⟩ | ⟨_, key, hkey, hsome⟩⟩ := exists_of_entry hread
    · cases hnone
    · cases hsome
      obtain ⟨text', htext', hdecode⟩ := exists_of_mapM_eq_ok hbytes _ (mem_keys_ofList.1 hvalue)
      exact ⟨(text, text'), mem_pairs_multi.2 ⟨texts, hentry, htext'⟩, hkey,
        decodeHex_eq_ok.1 hdecode⟩
  · rintro ⟨⟨text, text'⟩, hpair, hkey, hvalue⟩
    obtain ⟨texts, hentry, htext'⟩ := mem_pairs_multi.1 hpair
    obtain ⟨entry, hmem, hread⟩ := exists_mem_of_mapM_eq_ok hlist _ hentry
    obtain ⟨bytes, hbytes, hcases⟩ := exists_of_entry hread
    obtain ⟨value', hvalue', hdecode⟩ := exists_mem_of_mapM_eq_ok hbytes _ htext'
    obtain rfl : value' = value := Except.ok.inj ((decodeHex_eq_ok.1 hdecode).symm.trans hvalue)
    rcases hcases with ⟨rfl, _⟩ | ⟨_, key', hkey', rfl⟩
    · cases hvalue'
    · obtain rfl : key' = key := Except.ok.inj (hkey'.symm.trans hkey)
      exact ⟨_, (hloaded _).2 hmem, mem_keys_ofList.2 hvalue'⟩

/-- A tree whose keys stand for different bytes is read as exactly the pairs that are listed. -/
theorem mem_pairs_of_decode {read : Tree} (h : tree.decode name = .ok read)
    (hapart : tree.Apart) {key value : Bytes} : (key, value) ∈ read.pairs ↔
      ∃ pair ∈ tree.pairs, Hex.decode pair.1 = .ok key ∧ Hex.decode pair.2 = .ok value := by
  cases tree with
  | plain entries => exact mem_pairs_of_decode_plain h hapart
  | multi entries => exact mem_pairs_of_decode_multi h hapart

end FileTree

namespace Database

variable {text : String} {format : Nat} {trees : OrdMap String FileTree} {database : Database}

theorem ofFile_ofText (text : String) : ofFile (some (Bytes.ofText text)) = load text := by
  rw [ofFile]
  simp only [Bytes.text?_ofText]

/-- A document in the supported format is loaded tree by tree. -/
theorem load_of_shape (h : (Json.parse? text).bind ofJson? = some (fileFormat, trees)) :
    load text = do
      let trees ← trees.toList.mapM fun e => do return (e.1, ← e.2.decode e.1)
      return .ofList trees := by
  rw [load, h]
  exact if_pos rfl

theorem load_of_otherFormat (h : (Json.parse? text).bind ofJson? = some (format, trees))
    (hformat : format ≠ fileFormat) : load text = .error (.engine (.unsupportedFormat format)) := by
  rw [load, h]
  exact if_neg hformat

theorem entry_eq_ok {e : String × FileTree} {e' : String × Tree}
    (h : (do return (e.1, ← e.2.decode e.1)) = Except.ok e') :
    e'.1 = e.1 ∧ e.2.decode e.1 = .ok e'.2 := by
  obtain ⟨tree, hdecode, h⟩ := exists_of_bind_eq_ok h
  cases h
  exact ⟨rfl, hdecode⟩

/-- The trees of a loaded database are the listed ones. -/
theorem get?_of_load (h : (Json.parse? text).bind ofJson? = some (fileFormat, trees))
    (hload : load text = .ok database) {name : String} {tree : Tree} :
    database.get? name = some tree ↔
      ∃ listed, trees.get? name = some listed ∧ listed.decode name = .ok tree := by
  rw [load_of_shape h] at hload
  obtain ⟨list, hlist, hload⟩ := exists_of_bind_eq_ok hload
  cases hload
  have hnodup : (list.map (·.1)).Nodup := by
    refine List.pairwise_map.2 (pairwise_of_mapM_eq_ok hlist
      (List.pairwise_map.1 trees.nodup_keys) ?_)
    intro a a' b b' hab hb hb'
    rw [(entry_eq_ok hb).1, (entry_eq_ok hb').1]
    exact hab
  rw [OrdMap.get?_eq_some_iff, OrdMap.mem_ofList hnodup]
  constructor
  · intro hmem
    obtain ⟨⟨_, listed⟩, hlisted, hentry⟩ := exists_of_mapM_eq_ok hlist _ hmem
    obtain ⟨rfl, hdecode⟩ := entry_eq_ok hentry
    exact ⟨listed, OrdMap.get?_eq_some_iff.2 hlisted, hdecode⟩
  · rintro ⟨listed, hlisted, hdecode⟩
    obtain ⟨⟨name', tree'⟩, hmem, hentry⟩ :=
      exists_mem_of_mapM_eq_ok hlist _ (OrdMap.get?_eq_some_iff.1 hlisted)
    obtain ⟨rfl, hdecode'⟩ := entry_eq_ok hentry
    obtain rfl : tree' = tree := Except.ok.inj (hdecode'.symm.trans hdecode)
    exact hmem

/-- The failure to load a document in the supported format. -/
theorem corrupted_of_load (h : (Json.parse? text).bind ofJson? = some (fileFormat, trees))
    {error : Error} (hload : load text = .error error) :
    ∃ name listed fault, trees.get? name = some listed ∧ listed.Faulty fault ∧
      error = .engine (.corruptedState name fault) := by
  rw [load_of_shape h] at hload
  rcases error_of_bind hload with hload | ⟨_, _, hload⟩
  · obtain ⟨⟨name, listed⟩, hmem, hentry⟩ := exists_of_mapM_eq_error hload
    rcases error_of_bind hentry with hdecode | ⟨_, _, hentry⟩
    · obtain ⟨fault, hfault, rfl⟩ := FileTree.faulty_of_decode hdecode
      exact ⟨name, listed, fault, OrdMap.get?_eq_some_iff.2 hmem, hfault, rfl⟩
    · cases hentry
  · cases hload

theorem exists_load_iff (h : (Json.parse? text).bind ofJson? = some (fileFormat, trees)) :
    (∃ database, load text = .ok database) ↔
      ∀ name listed, trees.get? name = some listed → listed.Readable := by
  constructor
  · rintro ⟨database, hload⟩ name listed hlisted
    rw [load_of_shape h] at hload
    obtain ⟨list, hlist, _⟩ := exists_of_bind_eq_ok hload
    obtain ⟨⟨_, tree⟩, _, hentry⟩ :=
      exists_mem_of_mapM_eq_ok hlist _ (OrdMap.get?_eq_some_iff.1 hlisted)
    exact FileTree.readable_of_decode (entry_eq_ok hentry).2
  · intro hreadable
    cases hload : load text with
    | ok database => exact ⟨database, rfl⟩
    | error error =>
        obtain ⟨name, listed, fault, hlisted, hfault, _⟩ := corrupted_of_load h hload
        exact absurd hfault (FileTree.not_faulty (hreadable name listed hlisted) fault)

/-- What a database that is loaded from the listed trees consists of. -/
structure IsLoaded (database : Database) (trees : OrdMap String FileTree) : Prop where
  /-- No key of a multi tree is without values. -/
  dense : database.Dense
  kind : ∀ name, (database.get? name).map Tree.kind = (trees.get? name).map FileTree.kind
  /-- A tree whose keys stand for different bytes holds exactly the listed pairs. -/
  pairs : ∀ name tree listed, database.get? name = some tree → trees.get? name = some listed →
    listed.Apart → ∀ key value, (key, value) ∈ tree.pairs ↔
      ∃ pair ∈ listed.pairs, Hex.decode pair.1 = .ok key ∧ Hex.decode pair.2 = .ok value

theorem isLoaded_of_load (h : (Json.parse? text).bind ofJson? = some (fileFormat, trees))
    (hload : load text = .ok database) : database.IsLoaded trees where
  dense := dense_of_load hload
  kind := by
    intro name
    cases hlisted : trees.get? name with
    | none =>
        have hnone : database.get? name = none := by
          refine Option.eq_none_iff_forall_ne_some.2 fun tree hget => ?_
          obtain ⟨listed, hsome, _⟩ := (get?_of_load h hload).1 hget
          rw [hlisted] at hsome
          cases hsome
        rw [hnone]
        rfl
    | some listed =>
        have hreadable := (exists_load_iff h).1 ⟨database, hload⟩ name listed hlisted
        obtain ⟨tree, hdecode⟩ : ∃ tree, listed.decode name = .ok tree :=
          FileTree.exists_decode_iff.2 hreadable
        rw [(get?_of_load h hload).2 ⟨listed, hlisted, hdecode⟩]
        exact congrArg some (FileTree.kind_of_decode hdecode)
  pairs := by
    intro name tree listed hget hlisted hapart key value
    obtain ⟨listed', hlisted', hdecode⟩ := (get?_of_load h hload).1 hget
    obtain rfl : listed' = listed := Option.some.inj (hlisted'.symm.trans hlisted)
    exact FileTree.mem_pairs_of_decode hdecode hapart

/-- A text that has the shape of a database is loaded exactly if its format is the supported one
and all texts in its trees are hexadecimal, apart from the keys of a multi tree that are listed
without values. Otherwise the format is refused, or a text is reported under the name of its
tree. -/
theorem loads_iff_readable (h : (Json.parse? text).bind ofJson? = some (format, trees)) :
    ((∃ database, ofFile (some (Bytes.ofText text)) = .ok database) ↔
      format = fileFormat ∧ ∀ name listed, trees.get? name = some listed → listed.Readable) ∧
    (∀ error, ofFile (some (Bytes.ofText text)) = .error error →
      format ≠ fileFormat ∧ error = .engine (.unsupportedFormat format) ∨
      format = fileFormat ∧ ∃ name listed fault, trees.get? name = some listed ∧
        listed.Faulty fault ∧ error = .engine (.corruptedState name fault)) ∧
    ∀ database, ofFile (some (Bytes.ofText text)) = .ok database → database.IsLoaded trees := by
  rw [ofFile_ofText]
  by_cases hformat : format = fileFormat
  · subst hformat
    refine ⟨?_, fun error herror => .inr ⟨rfl, corrupted_of_load h herror⟩,
      fun database => isLoaded_of_load h⟩
    rw [exists_load_iff h]
    exact (and_iff_right rfl).symm
  · rw [load_of_otherFormat h hformat]
    refine ⟨iff_of_false nofun fun hboth => hformat hboth.1, fun error herror => ?_, nofun⟩
    cases herror
    exact .inl ⟨hformat, rfl⟩

namespace Sample

/-- A file with one multi tree, which lists a pair and, without values, the key `zz`. -/
def document : Json :=
  .record [("_v", .nat fileFormat), ("trees", .record [("t", .record [("kind", .text "multi"),
    ("entries", .record [("0a", .arr [.text "ff"]), ("zz", .arr [])])])])]

def listed : FileTree := .multi (.ofList [("0a", ["ff"]), ("zz", [])])

theorem written_document : document.Written := by
  refine .record (List.forall_mem_cons.2 ⟨.nat _, List.forall_mem_singleton.2 ?_⟩)
  refine .record (List.forall_mem_singleton.2 (.record ?_))
  refine List.forall_mem_cons.2 ⟨.text _, List.forall_mem_singleton.2 (.record ?_)⟩
  exact List.forall_mem_cons.2 ⟨.arr (List.forall_mem_singleton.2 (.text _)),
    List.forall_mem_singleton.2 (.arr nofun)⟩

theorem shape : (Json.parse? document.render).bind ofJson? =
    some (fileFormat, .ofList [("t", listed)]) := by
  rw [Json.parse?_render written_document]
  decide +kernel

theorem eq_listed {name : String} {tree : FileTree}
    (h : (OrdMap.ofList [("t", listed)]).get? name = some tree) : tree = listed := by
  have hmem := OrdMap.mem_of_get?_ofList h
  rw [List.mem_singleton] at hmem
  exact (Prod.mk.inj hmem).2

theorem readable_listed : listed.Readable :=
  FileTree.readable_iff.2 (by decide +kernel)

end Sample

/-- The sample is loaded, although one of its keys is no hexadecimal text. -/
theorem loads_sample :
    (Json.parse? Sample.document.render).bind ofJson? =
        some (fileFormat, .ofList [("t", Sample.listed)]) ∧
      ∃ database, ofFile (some (Bytes.ofText Sample.document.render)) = .ok database ∧
        database.IsLoaded (.ofList [("t", Sample.listed)]) := by
  have h := loads_iff_readable Sample.shape
  obtain ⟨database, hload⟩ := h.1.2 ⟨rfl, fun _ _ hlisted =>
    Sample.eq_listed hlisted ▸ Sample.readable_listed⟩
  exact ⟨Sample.shape, database, hload, h.2.2 database hload⟩

/-- Not every text of a loaded file is hexadecimal: a key that is listed without values is passed
over. -/
theorem not_loads_iff_wellFormed :
    ¬∀ (text : String) (format : Nat) (trees : OrdMap String FileTree),
      (Json.parse? text).bind ofJson? = some (format, trees) →
        ((∃ database, ofFile (some (Bytes.ofText text)) = .ok database) ↔
          format = fileFormat ∧ ∀ name listed, trees.get? name = some listed →
            listed.WellFormed) := by
  intro h
  have hload := (exists_load_iff Sample.shape).2 fun _ _ hlisted =>
    Sample.eq_listed hlisted ▸ Sample.readable_listed
  rw [← ofFile_ofText] at hload
  have hwell : Sample.listed.WellFormed := ((h _ _ _ Sample.shape).1 hload).2 "t" _ rfl
  have htext : Hex.IsText "zz" := hwell.1 "zz" (.tail _ (.head _))
  exact absurd (htext.2 'z' (by simp)) (by decide)

end Database

end CounterMesh
