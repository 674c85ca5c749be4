import CounterMesh.Counter.KeyBuffer
import CounterMesh.Proofs.Counter.Place
import CounterMesh.Proofs.OrdMap.Scan

/-!
# Keys and their order

The forms of words and of slots lose nothing: what is written is read back, and
what can be read is the form of what it is read as. Counter ids, etags and dates
sort as their forms do, and slots by their counter, then their owner, then their
sign. So the slots of a counter lie side by side, and a scan for the bytes of its
id finds them and no others. Entries of names come apart into the name and the id.
-/

namespace CounterMesh

namespace Word

/-- What is read as an unsigned word is the form of this word. -/
theorem big_of_big? {bytes : Bytes} {n : UInt64} (h : big? bytes = some n) : big n = bytes := by
  have hlength : bytes.length = 8 := by
    by_contra hne
    rw [(big?_eq_none_iff bytes).2 hne] at h
    cases h
  have hlt : BigEndian.decode bytes < UInt64.size := by
    have hcapacity := BigEndian.decode_lt bytes
    rw [hlength] at hcapacity
    exact hcapacity
  rw [big?, if_pos hlength, Option.some.injEq] at h
  rw [← h, big, UInt64.toNat_ofNat_of_lt' hlt]
  have hnumeral := BigEndian.encode_decode bytes
  rwa [hlength] at hnumeral

theorem exists_big {bytes : Bytes} (h : bytes.length = 8) : ∃ n, big n = bytes := by
  cases hread : big? bytes with
  | none => exact absurd h ((big?_eq_none_iff bytes).1 hread)
  | some n => exact ⟨n, big_of_big? hread⟩

theorem little_of_little? {bytes : Bytes} {n : Int64} (h : little? bytes = some n) :
    little n = bytes := by
  obtain ⟨word, hword, rfl⟩ := Option.map_eq_some_iff.1 h
  rw [little, UInt64.toUInt64_toInt64, big_of_big? hword, List.reverse_reverse]

theorem ordered_of_ordered? {bytes : Bytes} {n : Int64} (h : ordered? bytes = some n) :
    ordered n = bytes := by
  obtain ⟨word, hword, rfl⟩ := Option.map_eq_some_iff.1 h
  rw [ordered, UInt64.toUInt64_toInt64, UInt64.xor_assoc, UInt64.xor_self, UInt64.xor_zero,
    big_of_big? hword]

theorem little?_eq_none_iff (bytes : Bytes) : little? bytes = none ↔ bytes.length ≠ 8 := by
  rw [little?, Option.map_eq_none_iff, big?_eq_none_iff, List.length_reverse]

theorem ordered?_eq_none_iff (bytes : Bytes) : ordered? bytes = none ↔ bytes.length ≠ 8 := by
  rw [ordered?, Option.map_eq_none_iff, big?_eq_none_iff]

/-- Unsigned words sort as their big-endian forms. -/
theorem compare_big (a b : UInt64) : compare (big a) (big b) = compare a b := by
  cases h : compare a b with
  | lt => exact (compare_big_lt_iff a b).2 (Std.compare_eq_lt.1 h)
  | eq => rw [Std.LawfulEqOrd.eq_of_compare h, Std.ReflOrd.compare_self]
  | gt =>
      have hlt : b < a := Std.compare_eq_gt.1 h
      exact Std.OrientedCmp.gt_of_lt ((compare_big_lt_iff b a).2 hlt)

end Word

/-- A way of reading undoes a way of writing: the values that `writes` selects are read back,
the byte strings that `reads` selects are those that can be read, and each of them is the form
of what it is read as. -/
structure Inverts (writes : α → Prop) (reads : Bytes → Prop) (write : α → Bytes)
    (read : Bytes → Except Error α) : Prop where
  read_write_iff : ∀ a, read (write a) = .ok a ↔ writes a
  exists_read_iff : ∀ bytes, (∃ a, read bytes = .ok a) ↔ reads bytes
  write_of_read : ∀ {bytes a}, read bytes = .ok a → write a = bytes

/-- It does so if every form is read back, and whatever is not a form is not read. -/
theorem Inverts.of_forms {reads : Bytes → Prop} {write : α → Bytes}
    {read : Bytes → Except Error α} (hread : ∀ a, read (write a) = .ok a)
    (hform : ∀ {bytes}, reads bytes → ∃ a, write a = bytes)
    (hfail : ∀ {bytes}, ¬ reads bytes → ∃ e, read bytes = .error e) :
    Inverts (fun _ => True) reads write read := by
  have hreads : ∀ {bytes a}, read bytes = .ok a → reads bytes := by
    intro bytes a h
    by_contra hnot
    obtain ⟨e, herror⟩ := hfail hnot
    rw [herror] at h
    cases h
  refine ⟨fun a => iff_true_intro (hread a), fun bytes => ⟨fun ⟨a, h⟩ => hreads h, ?_⟩, ?_⟩
  · intro h
    obtain ⟨a, rfl⟩ := hform h
    exact ⟨a, hread a⟩
  · intro bytes a h
    obtain ⟨b, rfl⟩ := hform (hreads h)
    rw [hread, Except.ok.injEq] at h
    rw [h]

namespace Stored

/-- A reading of fields of eight bytes inverts a writing if it does so where it succeeds. -/
theorem inverts_sized (tree : String) {write : α → Bytes} {read? : Bytes → Option α}
    (hread : ∀ a, read? (write a) = some a)
    (hwrite : ∀ {bytes a}, read? bytes = some a → write a = bytes)
    (hnone : ∀ bytes, read? bytes = none ↔ bytes.length ≠ 8) :
    Inverts (fun _ => True) (fun bytes => bytes.length = 8) write
      fun bytes => sized tree bytes (read? bytes) := by
  refine .of_forms (fun a => by simp [hread, sized]) ?_ ?_
  · intro bytes hlength
    cases h : read? bytes with
    | none => exact absurd hlength ((hnone bytes).1 h)
    | some a => exact ⟨a, hwrite h⟩
  · intro bytes hlength
    exact ⟨_, by rw [(hnone bytes).2 hlength]; rfl⟩

theorem word_inverts (tree : String) :
    Inverts (fun _ => True) (fun bytes => bytes.length = 8) Word.big (word tree) :=
  inverts_sized tree Word.big?_big Word.big_of_big? Word.big?_eq_none_iff

theorem value_inverts (tree : String) :
    Inverts (fun _ => True) (fun bytes => bytes.length = 8) Word.little (value tree) :=
  inverts_sized tree Word.little?_little Word.little_of_little? Word.little?_eq_none_iff

theorem ticks_inverts (tree : String) :
    Inverts (fun _ => True) (fun bytes => bytes.length = 8) Word.ordered (ticks tree) :=
  inverts_sized tree Word.ordered?_ordered Word.ordered_of_ordered? Word.ordered?_eq_none_iff

end Stored

namespace Owner

/-- An owner is the one that its server id stands for, unless it is a node of the reserved id. -/
theorem ofServer_server_iff (owner : Owner) :
    ofServer owner.server = owner ↔ owner ≠ .node .nil := by
  cases owner with
  | tombstone => simp [server, ofServer]
  | node id =>
      by_cases h : id = .nil
      · simp [server, ofServer, h]
      · simp [server, ofServer, h]

end Owner

namespace SlotKey

/-- The place that a key is the key of. -/
def place (key : SlotKey) : Place := ⟨key.counterId, key.owner.server, key.sign⟩

theorem bytes_place (key : SlotKey) : key.place.bytes = key.bytes :=
  (Place.bytes_slotKey key.counterId key.owner key.sign).symm

theorem slot_place (key : SlotKey) : key.place.slot = key ↔ key.owner ≠ .node .nil := by
  obtain ⟨counterId, owner, sign⟩ := key
  simp [place, Place.slot, Owner.ofServer_server_iff]

/-- The byte strings that are the key of a slot: twenty-five bytes, the last one a sign. -/
def Legible (bytes : Bytes) : Prop :=
  bytes.length = 25 ∧ (bytes.getLast? = some 0x2b ∨ bytes.getLast? = some 0x2d)

/-- A legible byte string is the key of a place. -/
theorem legible_iff (bytes : Bytes) : Legible bytes ↔ ∃ p : Place, p.bytes = bytes := by
  constructor
  · rintro ⟨hlength, hlast⟩
    obtain ⟨sign, hsign⟩ : ∃ sign : Sign, bytes.getLast? = some sign.byte :=
      hlast.elim (fun h => ⟨.positive, h⟩) fun h => ⟨.negative, h⟩
    obtain ⟨front, rfl⟩ := List.getLast?_eq_some_iff.1 hsign
    have hfront : front.length = 24 := by simpa using hlength
    have hid : (front.take 8).length = 8 := by simp [hfront]
    have hserver : (front.drop 8).length = 16 := by simp [hfront]
    obtain ⟨counterId, hcounterId⟩ := Word.exists_big hid
    refine ⟨⟨counterId, ⟨front.drop 8, hserver⟩, sign⟩, ?_⟩
    rw [Place.bytes_eq, hcounterId, ← List.append_assoc, List.take_append_drop]
  · rintro ⟨p, rfl⟩
    refine ⟨length_bytes p.slot, ?_⟩
    rw [Place.bytes_eq, ← List.append_assoc, List.getLast?_concat]
    cases p.sign
    · exact .inl rfl
    · exact .inr rfl

/-- What is not legible is not read. -/
theorem legible_of_decode {tree : String} {bytes : Bytes} {key : SlotKey}
    (h : decode tree bytes = .ok key) : Legible bytes := by
  by_cases hlength : bytes.length = width
  · rcases List.eq_nil_or_concat' bytes with rfl | ⟨front, byte, rfl⟩
    · cases hlength
    · refine ⟨hlength, ?_⟩
      rw [List.getLast?_concat]
      cases hsign : Sign.ofByte? byte with
      | some sign =>
          rw [Sign.ofByte?_eq_some_iff.1 hsign]
          cases sign
          · exact .inl rfl
          · exact .inr rfl
      | none =>
          rw [decode, if_pos hlength, List.getLastD_concat] at h
          simp only [hsign, bind, Except.bind] at h
          split at h
          · cases h
          · split at h <;> cases h
  · rw [decode, if_neg hlength] at h
    cases h

theorem decode_inverts (tree : String) :
    Inverts (fun key => key.owner ≠ .node .nil) Legible bytes (decode tree) where
  read_write_iff key := by
    rw [← bytes_place, Place.decode_bytes, Except.ok.injEq, slot_place]
  exists_read_iff bytes := by
    refine ⟨fun ⟨_, h⟩ => legible_of_decode h, fun h => ?_⟩
    obtain ⟨p, rfl⟩ := (legible_iff bytes).1 h
    exact ⟨p.slot, Place.decode_bytes tree p⟩
  write_of_read {bytes key} h := by
    obtain ⟨p, rfl⟩ := (legible_iff bytes).1 (legible_of_decode h)
    rw [Place.decode_bytes, Except.ok.injEq] at h
    rw [← h]
    rfl

/-- Slots sort by their counter, then their owner, then their sign. -/
theorem compare_bytes (key other : SlotKey) :
    compare key.bytes other.bytes =
      ((compare key.counterId other.counterId).then
        ((compare key.owner.server.bytes other.owner.server.bytes).then
          (compare key.sign.byte other.sign.byte))) := by
  have hservers : key.owner.server.bytes.length = other.owner.server.bytes.length := by
    rw [key.owner.server.length_bytes, other.owner.server.length_bytes]
  rw [bytes, bytes, List.append_assoc, List.append_assoc, Bytes.compare_append (by simp),
    Bytes.compare_append hservers, Word.compare_big]
  simp

/-- The slots of a counter are those whose keys start with its id. -/
theorem prefix_bytes_iff (counterId : CounterId) (key : SlotKey) :
    Word.big counterId <+: key.bytes ↔ key.counterId = counterId := by
  rw [← bytes_place, Place.prefix_bytes_iff]
  rfl

/-- Between two slots of a counter there are only keys that start with its id. -/
theorem prefix_of_between {key other : SlotKey} (h : key.counterId = other.counterId)
    {bytes : Bytes} (hkey : compare key.bytes bytes ≠ .gt)
    (hother : compare bytes other.bytes ≠ .gt) : Word.big key.counterId <+: bytes := by
  have hstem : Word.big key.counterId <+: key.bytes := (prefix_bytes_iff _ key).2 rfl
  have hstem' : Word.big key.counterId <+: other.bytes := (prefix_bytes_iff _ other).2 h.symm
  cases hcompare : compare bytes other.bytes with
  | gt => exact absurd hcompare hother
  | eq => rwa [Std.LawfulEqOrd.eq_of_compare hcompare]
  | lt =>
      refine Bytes.stem_of_between ?_ hcompare hstem'
      intro hlt
      have hbelow : compare key.bytes (Word.big key.counterId) = .lt := by
        cases hfirst : compare key.bytes bytes with
        | gt => exact absurd hfirst hkey
        | eq => rwa [Std.LawfulEqOrd.eq_of_compare hfirst]
        | lt => exact Std.TransCmp.lt_trans hfirst hlt
      exact Bytes.compare_ne_lt_of_stem hstem hbelow

end SlotKey

namespace GroupEntry

/-- An entry belongs to a name exactly if it is the name followed by the form of an id. -/
theorem idFor?_iff_eq_append {name entry : Bytes} {counterId : CounterId} :
    idFor? name entry = some counterId ↔ entry = name ++ Word.big counterId := by
  constructor
  · intro h
    obtain ⟨id, rfl, hid⟩ := idFor?_eq_some_iff.1 h
    rw [Word.big_of_big? hid]
  · rintro rfl
    exact idFor?_bytes name counterId

/-- The entries of one name sort as their ids. -/
theorem compare_append_big (name : Bytes) (a b : CounterId) :
    compare (name ++ Word.big a) (name ++ Word.big b) = compare a b := by
  rw [Bytes.compare_append rfl, Std.ReflOrd.compare_self, Word.compare_big]
  rfl

/-- Entries come apart into what they were built from, whatever was in the buffer before. -/
theorem split_inverts (tree : String) (buffer : KeyBuffer) :
    Inverts (fun _ => True) (fun entry => 8 ≤ entry.length)
      (fun row => (buffer.groupEntry row.1 row.2).bytes) (split tree) := by
  refine .of_forms (fun row => split_bytes tree row.1 row.2) ?_ ?_
  · intro entry hlength
    obtain ⟨counterId, hid⟩ := @Word.exists_big (entry.drop (entry.length - 8))
      (by rw [List.length_drop]; omega)
    refine ⟨(entry.take (entry.length - 8), counterId), ?_⟩
    rw [KeyBuffer.bytes_groupEntry, bytes, hid, List.take_append_drop]
  · intro entry hshort
    exact ⟨_, by rw [split, if_pos (by omega)]⟩

end GroupEntry

/-- The keys of names come apart into what they were built from, whatever was in the buffer
before. -/
theorem NameKey.split_inverts (tree : String) (buffer : KeyBuffer) :
    Inverts (fun _ => True) (fun key => 8 ≤ key.length)
      (fun row => (buffer.nameKey row.1 row.2).bytes) (split tree) := by
  refine .of_forms (fun row => split_bytes tree row.1 row.2) ?_ ?_
  · intro key hlength
    obtain ⟨counterId, hid⟩ := @Word.exists_big (key.take 8) (by rw [List.length_take]; omega)
    refine ⟨(counterId, key.drop 8), ?_⟩
    rw [KeyBuffer.bytes_nameKey, bytes, hid, List.take_append_drop]
  · intro key hshort
    exact ⟨_, by rw [split, if_pos (by omega)]⟩

/-- The forms of slots, dates, counter ids and etags are bijections onto the byte strings they
are read from, and they sort as what they stand for. The slots of one counter are those whose
keys start with its id, with nothing else between them. The form of a value is a bijection too;
it is never a key, and its order says nothing. -/
theorem forms_invert_and_sort (tree : String) :
    (Inverts (fun key => key.owner ≠ .node .nil) SlotKey.Legible SlotKey.bytes
        (SlotKey.decode tree) ∧
      (∀ key other : SlotKey, compare key.bytes other.bytes =
        ((compare key.counterId other.counterId).then
          ((compare key.owner.server.bytes other.owner.server.bytes).then
            (compare key.sign.byte other.sign.byte)))) ∧
      (∀ (counterId : CounterId) (key : SlotKey),
        Word.big counterId <+: key.bytes ↔ key.counterId = counterId) ∧
      ∀ (key other : SlotKey) (bytes : Bytes), key.counterId = other.counterId →
        compare key.bytes bytes ≠ .gt → compare bytes other.bytes ≠ .gt →
          Word.big key.counterId <+: bytes) ∧
    (Inverts (fun _ => True) (fun bytes => bytes.length = 8) Word.ordered (Stored.ticks tree) ∧
      ∀ a b : Int64, compare (Word.ordered a) (Word.ordered b) = .lt ↔ a < b) ∧
    (Inverts (fun _ => True) (fun bytes => bytes.length = 8) Word.big (Stored.word tree) ∧
      ∀ a b : UInt64, compare (Word.big a) (Word.big b) = .lt ↔ a < b) ∧
    Inverts (fun _ => True) (fun bytes => bytes.length = 8) Word.little (Stored.value tree) := by
  refine ⟨⟨SlotKey.decode_inverts tree, SlotKey.compare_bytes, SlotKey.prefix_bytes_iff, ?_⟩,
    ⟨Stored.ticks_inverts tree, Word.compare_ordered_lt_iff⟩,
    ⟨Stored.word_inverts tree, Word.compare_big_lt_iff⟩, Stored.value_inverts tree⟩
  intro key other bytes hsame hkey hother
  exact SlotKey.prefix_of_between hsame hkey hother

end CounterMesh
