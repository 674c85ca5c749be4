import CounterMesh.Json.Bytes
import CounterMesh.Json.Decode
import CounterMesh.Json.Printer

/-!
# Replication documents

A store keeps a document that lists where its changes are to be sent.
-/

namespace CounterMesh

/-- One place to send changes to. -/
structure Destination where
  /-- The address of the remote server. -/
  serverUrl : String
  /-- The name of the store on the remote server. -/
  storeName : String
  apiKey : Option String := none
  disabled : Bool := false
  deriving DecidableEq, Repr

/-- All places to send changes to. -/
structure ReplicationDocument where
  destinations : List Destination := []
  deriving DecidableEq, Repr

namespace Destination

/-- The address of the store on the remote server; slashes at the end of the server's address are
left out. -/
def url (d : Destination) : String :=
  String.ofList (d.serverUrl.toList.reverse.dropWhile (· == '/')).reverse ++ "/cs/" ++ d.storeName

/-- An absent key is left out. -/
def toJson (d : Destination) : Json :=
  .record
    ([("server_url", .text d.serverUrl), ("counter_storage_name", .text d.storeName)] ++
      (match d.apiKey with
        | none => []
        | some key => [("api_key", .text key)]) ++
      [("disabled", .bool d.disabled)])

def ofJson? (document : Json) : Option Destination := do
  match ← document.asRecord? ["server_url", "counter_storage_name", "api_key", "disabled"] with
  | [some serverUrl, some storeName, apiKey, disabled] =>
    return {
      serverUrl := ← serverUrl.asText?
      storeName := ← storeName.asText?
      apiKey := ← (apiKey.getD .null).asOptional? Json.asText?
      disabled := ← (disabled.getD (.bool false)).asBool? }
  | _ => none

end Destination

namespace ReplicationDocument

/-- The destinations in use. -/
def active (document : ReplicationDocument) : List Destination :=
  document.destinations.filter fun d => !d.disabled

def toJson (document : ReplicationDocument) : Json :=
  .record [("destinations", .arr (document.destinations.map Destination.toJson))]

def ofJson? (document : Json) : Option ReplicationDocument := do
  match ← document.asRecord? ["destinations"] with
  | [destinations] =>
    return ⟨← (destinations.getD (.arr [])).asList? Destination.ofJson?⟩
  | _ => none

/-- The document in a text. -/
def parse? (text : String) : Option ReplicationDocument := (Json.parse? text).bind ofJson?

/-- The document in a byte string. -/
def ofBytes? (bytes : Bytes) : Option ReplicationDocument :=
  (Json.parseBytes? bytes).bind ofJson?

end ReplicationDocument

end CounterMesh
