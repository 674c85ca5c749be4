import CounterMesh.Counter.Record
import CounterMesh.Store.Stats
import CounterMesh.Text.Columns

/-!
# Reports

What a command has to report, and its text: lines and tables for people, or one
line of JSON.
-/

namespace CounterMesh

/-- What a command reports. -/
inductive Report where
  | increased (group name : String) (action : ChangeAction) (sum : Int64)
  | reset (group name : String) (delta : Int64)
  | deleted (group name : String)
  | total (summary : Summary)
  | slots (items : List SlotValue)
  | summaries (items : List Summary)
  | groups (items : List GroupSize)
  | changes (entries : List FeedEntry)
  | purged (batches remaining : Nat)
  | stats (figures : Stats)

namespace Report

/-- The name of the owner of a feed entry. -/
def ownerText (id : ServerId) : String := if id.isNil then "tombstone" else id.text

/-- A report in lines for people. -/
def lines : Report → List String
  | .increased group name action sum =>
    [group ++ "/" ++ name ++ ": " ++ Decimal.ofSigned sum ++ " (" ++ action.label ++ ")"]
  | .reset group name delta =>
    if delta = 0 then [group ++ "/" ++ name ++ " is already zero"]
    else [group ++ "/" ++ name ++ ": reset by " ++ Decimal.ofSigned delta]
  | .deleted group name => ["Deleted " ++ group ++ "/" ++ name]
  | .total summary => [Decimal.ofSigned summary.total]
  | .slots items =>
    Columns.render ["SERVER ID", "SIGN", "VALUE"]
      (items.map fun slot => [slot.serverId.text, slot.sign.text, Decimal.ofSigned slot.value])
      "No slots."
  | .summaries items =>
    Columns.render ["GROUP", "NAME", "TOTAL"]
      (items.map fun s => [s.group, s.name, Decimal.ofSigned s.total])
      "No counters found."
  | .groups items =>
    Columns.render ["GROUP", "COUNTERS"]
      (items.map fun group => [group.name, Decimal.text group.count])
      "No groups found."
  | .changes entries =>
    Columns.render ["ETAG", "GROUP", "NAME", "SERVER ID", "SIGN", "VALUE"]
      (entries.map fun entry =>
        [Decimal.ofWord entry.etag, entry.group, entry.name, ownerText entry.serverId,
         entry.sign.text, Decimal.ofSigned entry.value])
      "No changes."
  | .purged batches remaining =>
    ["Purged batches:       " ++ Decimal.text batches,
     "Remaining tombstones: " ++ Decimal.text remaining]
  | .stats s =>
    ["Name:            " ++ s.name,
     "Server ID:       " ++ s.serverId.text,
     "Counters:        " ++ Decimal.text s.countersCount,
     "Groups:          " ++ Decimal.text s.groupsCount,
     "Tombstones:      " ++ Decimal.text s.tombstonesCount,
     "Last etag:       " ++ Decimal.ofWord s.lastEtag,
     "Last counter id: " ++ Decimal.ofWord s.lastCounterId,
     "Last write:      " ++ (s.lastWrite.map Timestamp.offsetForm).getD "never"]

/-- A report as a document. The fields of a report without a record of its own are in alphabetical
order. -/
def toJson : Report → Json
  | .increased group name action sum =>
    .record
      [("action", .text action.label), ("group", .text group), ("name", .text name),
       ("total", .signed sum)]
  | .reset group name delta =>
    .record [("delta", .signed delta), ("group", .text group), ("name", .text name)]
  | .deleted group name =>
    .record [("deleted", .bool true), ("group", .text group), ("name", .text name)]
  | .total summary => summary.toJson
  | .slots items => .arr (items.map SlotValue.toJson)
  | .summaries items => .arr (items.map Summary.toJson)
  | .groups items => .arr (items.map GroupSize.toJson)
  | .changes entries => .arr (entries.map FeedEntry.toJson)
  | .purged batches remaining =>
    .record [("batches", .nat batches), ("remaining_tombstones", .nat remaining)]
  | .stats figures => figures.toJson

/-- The text of a report. -/
def text (json : Bool) (report : Report) : String :=
  let lines := if json then [report.toJson.render] else report.lines
  String.join (lines.map (· ++ "\n"))

end Report

end CounterMesh
