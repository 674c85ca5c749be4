import CounterMesh.Proofs.Json.Values
import CounterMesh.Proofs.Json.Written
import CounterMesh.Replication.Document

/-!
# Stored replication documents

A replication document is stored as compact text and read back as it was, also
when a destination has no key: the field is left out then, and a field that is
missing stands for none.
-/

namespace CounterMesh

namespace Destination

theorem written_toJson (d : Destination) : d.toJson.Written := by
  refine .record fun field hfield => ?_
  rcases List.mem_append.1 hfield with hfield | hfield
  · rcases List.mem_append.1 hfield with hfield | hfield
    · simp only [List.mem_cons, List.not_mem_nil, or_false] at hfield
      rcases hfield with rfl | rfl <;> exact .text _
    · cases hkey : d.apiKey with
      | none =>
          rw [hkey] at hfield
          cases hfield
      | some key =>
          rw [hkey] at hfield
          obtain rfl := List.mem_singleton.1 hfield
          exact .text _
  · obtain rfl := List.mem_singleton.1 hfield
    exact .bool _

theorem ofJson?_toJson (d : Destination) : ofJson? d.toJson = some d := by
  obtain ⟨serverUrl, storeName, apiKey, disabled⟩ := d
  have hrecord : (toJson ⟨serverUrl, storeName, apiKey, disabled⟩).asRecord?
      ["server_url", "counter_storage_name", "api_key", "disabled"] =
        some [some (.text serverUrl), some (.text storeName), apiKey.map .text,
          some (.bool disabled)] := by
    cases apiKey <;> exact Json.asRecord?_record _ _
  have hkey : ((apiKey.map Json.text).getD .null).asOptional? Json.asText? = some apiKey := by
    cases apiKey with
    | none => rfl
    | some key =>
        have htext := Json.asText?_text key
        rw [Json.text] at htext
        rw [Option.map_some, Option.getD_some, Json.text, Json.asOptional?, htext]
        · rfl
        · intro h
          cases h
  rw [ofJson?, hrecord]
  simp only [Option.bind_eq_bind, Option.bind_some, Json.asText?_text, hkey, Option.getD_some]
  rfl

end Destination

namespace ReplicationDocument

theorem written_toJson (document : ReplicationDocument) : document.toJson.Written := by
  refine .record (List.forall_mem_singleton.2 (.arr fun item hitem => ?_))
  obtain ⟨d, _, rfl⟩ := List.mem_map.1 hitem
  exact d.written_toJson

theorem ofJson?_toJson (document : ReplicationDocument) :
    ofJson? document.toJson = some document := by
  have hrecord : document.toJson.asRecord? ["destinations"] =
      some [some (.arr (document.destinations.map Destination.toJson))] :=
    Json.asRecord?_record _ _
  have hlist : Json.asList? Destination.ofJson?
      (.arr (document.destinations.map Destination.toJson)) = some document.destinations := by
    have hread : ∀ d ∈ document.destinations, Destination.ofJson? d.toJson = some (id d) :=
      fun d _ => d.ofJson?_toJson
    rw [Json.asList?_map hread, List.map_id]
  rw [ofJson?, hrecord]
  simp only [Option.bind_eq_bind, Option.bind_some, Option.getD_some, hlist]
  rfl

/-- A document is read back from its text, however the text is spaced. -/
theorem parse?_spaced (document : ReplicationDocument) (spacing : Json.Spacing) :
    parse? (String.ofList (Json.spaced spacing 0 document.toJson)) = some document := by
  rw [parse?, document.written_toJson.parse? spacing, Option.bind_some, ofJson?_toJson]

theorem parse?_render (document : ReplicationDocument) :
    parse? document.toJson.render = some document := by
  rw [parse?, Json.parse?_render document.written_toJson, Option.bind_some, ofJson?_toJson]

/-- A stored document is read back as it was. -/
theorem ofBytes?_render (document : ReplicationDocument) :
    ofBytes? (Bytes.ofText document.toJson.render) = some document := by
  rw [ofBytes?, Json.parseBytes?_ofText, Json.parse?_render document.written_toJson,
    Option.bind_some, ofJson?_toJson]

end ReplicationDocument

end CounterMesh
