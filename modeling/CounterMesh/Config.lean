import CounterMesh.Bytes.Word
import CounterMesh.Error
import CounterMesh.Json.Decode
import CounterMesh.Json.Parser
import CounterMesh.Json.Printer
import CounterMesh.Text.Blank

/-!
# Configuration

The settings of a store. Every setting has a default, so that a document names
only what it changes; a store opens with valid settings only.
-/

namespace CounterMesh

/-- The settings of a store. -/
structure Config where
  /-- The name of the store in reports. -/
  name : String := "counters"
  /-- How many seconds a tombstone is kept before it may be purged. -/
  tombstoneRetention : UInt64 := 14 * 24 * 60 * 60
  /-- How many tombstones one batch of a purge removes at most. -/
  deletedTombstonesInBatch : UInt64 := 1000
  /-- How many seconds lie between two sweeps. -/
  purgeInterval : UInt64 := 60 * 60
  /-- How many feed entries one message holds at most. -/
  replicationBatchSize : UInt64 := 1024
  /-- After how many milliseconds an exchange starts no further batch. -/
  replicationTimeout : UInt64 := 60000
  deriving DecidableEq, Repr, Inhabited

namespace Config

/-- The greatest retention whose milliseconds fit a signed word. -/
def maxRetention : UInt64 := 9223372036854775

/-- The settings that must not be zero, in the order in which they are checked. -/
def positiveSettings (config : Config) : List (Setting × UInt64) :=
  [(.deletedTombstonesInBatch, config.deletedTombstonesInBatch),
   (.purgeInterval, config.purgeInterval),
   (.replicationBatchSize, config.replicationBatchSize),
   (.replicationTimeout, config.replicationTimeout)]

/-- The first fault of the settings. -/
def fault? (config : Config) : Option (Setting × SettingFault) :=
  if Blank.isBlankText config.name then some (.name, .empty)
  else
    match config.positiveSettings.find? fun setting => setting.2 == 0 with
    | some (setting, _) => some (setting, .zero)
    | none =>
      if config.tombstoneRetention > maxRetention then
        some (.tombstoneRetention, .outOfRange config.tombstoneRetention)
      else none

/-- Refuses settings with a fault. -/
def validate (config : Config) : Except Error Unit :=
  match config.fault? with
  | none => .ok ()
  | some (setting, fault) => .error (.config (.invalidValue setting fault))

/-- The default settings pass every check. -/
theorem validate_default : ({} : Config).validate = .ok () := rfl

/-- How long a tombstone is kept, in milliseconds. -/
def retentionMillis (config : Config) : Nat := config.tombstoneRetention.toNat * 1000

/-- How long the sweeper waits, in milliseconds. -/
def intervalMillis (config : Config) : Nat := config.purgeInterval.toNat * 1000

/-- How long an exchange may run, in milliseconds. -/
def timeoutMillis (config : Config) : Nat := config.replicationTimeout.toNat

/-- The retention as a distance of deletion times: at most the greatest signed word. -/
def retentionTicks (config : Config) : Int64 := Word.clamp config.retentionMillis

def toJson (config : Config) : Json :=
  .record
    [("name", .text config.name),
     (Setting.tombstoneRetention.field, .nat config.tombstoneRetention.toNat),
     (Setting.deletedTombstonesInBatch.field, .nat config.deletedTombstonesInBatch.toNat),
     (Setting.purgeInterval.field, .nat config.purgeInterval.toNat),
     (Setting.replicationBatchSize.field, .nat config.replicationBatchSize.toNat),
     (Setting.replicationTimeout.field, .nat config.replicationTimeout.toNat)]

/-- A setting that is read if it is there. -/
def setting? (read? : Json → Option α) (default : α) : Option Json → Option α
  | none => some default
  | some document => read? document

/-- The settings of a document, which need not be valid. -/
def ofJson? (document : Json) : Option Config := do
  let base : Config := {}
  match ← document.asRecord?
      [Setting.name.field, Setting.tombstoneRetention.field,
       Setting.deletedTombstonesInBatch.field, Setting.purgeInterval.field,
       Setting.replicationBatchSize.field, Setting.replicationTimeout.field] with
  | [name, retention, batch, interval, batchSize, timeout] =>
    return {
      name := ← setting? Json.asText? base.name name
      tombstoneRetention := ← setting? Json.asWord? base.tombstoneRetention retention
      deletedTombstonesInBatch := ← setting? Json.asWord? base.deletedTombstonesInBatch batch
      purgeInterval := ← setting? Json.asWord? base.purgeInterval interval
      replicationBatchSize := ← setting? Json.asWord? base.replicationBatchSize batchSize
      replicationTimeout := ← setting? Json.asWord? base.replicationTimeout timeout }
  | _ => none

/-- The settings in a text, which need not be valid. -/
def parse? (text : String) : Option Config := (Json.parse? text).bind ofJson?

/-- The valid settings in a text. -/
def ofText (text : String) : Except Error Config :=
  match parse? text with
  | none => .error (.config .malformed)
  | some config => do
    config.validate
    return config

/-- The valid settings in the file at `path`, which holds `contents` if it can be read. -/
def ofFile (path : String) (contents : Option Bytes) : Except Error Config :=
  match contents.bind Bytes.text? with
  | none => .error (.config (.unreadable path))
  | some text => ofText text

end Config

end CounterMesh
