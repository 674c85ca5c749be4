import CounterMesh.Bytes.Hex
import CounterMesh.Engine.Kind
import CounterMesh.Text.Decimal
import CounterMesh.Text.Quoted

/-!
# Errors

Every failure is a cause with the data that describes it. The wording of a cause
is given by `message`, the part of the library it comes from by `area`, and what
a caller may conclude from it by the four classes below.
-/

namespace CounterMesh

/-- A failure of the key-value engine or of its file. -/
inductive EngineError where
  /-- The write lock is held by an open transaction. -/
  | busy
  | treeNotFound (tree : String)
  | treeKindMismatch (tree : String) (expected actual : TreeKind)
  | readOnly (mutation : Mutation)
  /-- A value that should be incremented is not eight bytes wide. -/
  | notAnInteger (tree : String) (key : Bytes) (width : Nat)
  | unsupportedFormat (found : Nat)
  /-- A key or value in a file is not hexadecimal. -/
  | corruptedState (tree : String) (fault : Hex.Fault)
  /-- A file does not have the shape of a database. -/
  | malformedFile
  /-- A file cannot be read or written. -/
  | fileAccess
  deriving DecidableEq, Repr

/-- The format of files that is written and read. -/
def fileFormat : Nat := 1

/-- What two indexes disagree about, or what an index entry lacks. -/
inductive IndexFault where
  /-- A name is not UTF-8. -/
  | unreadableName (name : Bytes)
  | missingSlot (etag : UInt64)
  | namelessCounter (counterId : UInt64)
  deriving DecidableEq, Repr

/-- An argument that an operation refuses. -/
inductive ArgumentFault where
  | emptyGroup
  | emptyName
  | badSign (text : String)
  /-- The id that is reserved for tombstones was requested for a node. -/
  | reservedServerId
  deriving DecidableEq, Repr

/-- A failure of the counter store. -/
inductive CounterError where
  | notFound (group name : String)
  | readOnlyWriter
  | deltaOutOfRange (delta : Int64)
  | invalidArgument (fault : ArgumentFault)
  | invalidWidth (tree : String) (expected found : Nat)
  | unknownSign (byte : UInt8)
  | inconsistentIndex (tree : String) (fault : IndexFault)
  /-- The format header of a store is not the supported one. -/
  | unsupportedFormat (found expected : Bytes)
  /-- The stored replication document does not parse. -/
  | invalidDocument
  deriving DecidableEq, Repr

/-- A setting with restricted values. -/
inductive Setting where
  | name
  | tombstoneRetention
  | deletedTombstonesInBatch
  | purgeInterval
  | replicationBatchSize
  | replicationTimeout
  deriving DecidableEq, Repr

/-- Why the value of a setting is refused. -/
inductive SettingFault where
  | empty
  | zero
  | outOfRange (value : UInt64)
  deriving DecidableEq, Repr

/-- A failure to get a usable configuration. -/
inductive ConfigError where
  | unreadable (path : String)
  | malformed
  | invalidValue (setting : Setting) (fault : SettingFault)
  deriving DecidableEq, Repr

/-- A failure of the library. -/
inductive Error where
  | engine (cause : EngineError)
  | counter (cause : CounterError)
  | config (cause : ConfigError)
  /-- The replication scheduler could not be closed. -/
  | schedulerGone
  /-- Several steps of shutting down the store `name` failed. -/
  | shutdown (name : String) (failures : List Error)
  deriving Repr

namespace EngineError

def message : EngineError → String
  | .busy => "Another read-write transaction is open"
  | .treeNotFound tree => "Tree not found: " ++ tree
  | .treeKindMismatch tree expected actual =>
    "Tree " ++ tree ++ " is a " ++ actual.name ++ " tree, expected " ++ expected.name
  | .readOnly mutation => "Cannot " ++ mutation.label ++ " in a read-only transaction"
  | .notAnInteger tree key width =>
    "Value under key " ++ Hex.encode key ++ " in tree " ++ tree ++ " is " ++ Decimal.text width ++
      " bytes, expected 8"
  | .unsupportedFormat found =>
    "Unsupported persistence format version " ++ Decimal.text found ++ ", expected " ++
      Decimal.text fileFormat
  | .corruptedState tree fault =>
    "Corrupted persisted state: invalid hex in tree " ++ tree ++ ": " ++ fault.message
  | .malformedFile => "Deserialization failed"
  | .fileAccess => "File I/O error"

/-- The tree that a failure is about. -/
def tree? : EngineError → Option String
  | .treeNotFound tree => some tree
  | .treeKindMismatch tree _ _ => some tree
  | .notAnInteger tree _ _ => some tree
  | _ => none

def isNotFound : EngineError → Bool
  | .treeNotFound _ => true
  | _ => false

def isInvalidOperation : EngineError → Bool
  | .treeKindMismatch .. | .readOnly _ | .busy => true
  | _ => false

def isCorruption : EngineError → Bool
  | .notAnInteger .. | .unsupportedFormat _ | .corruptedState .. => true
  | _ => false

def isIo : EngineError → Bool
  | .fileAccess | .malformedFile => true
  | _ => false

end EngineError

def IndexFault.message : IndexFault → String
  | .unreadableName name => "non UTF-8 name " ++ Hex.encode name
  | .missingSlot etag => "etag " ++ Decimal.ofWord etag ++ " points to a missing slot"
  | .namelessCounter counterId => "counter id " ++ Decimal.ofWord counterId ++ " has no name"

/-- The argument that a fault is about. -/
def ArgumentFault.argument : ArgumentFault → String
  | .emptyGroup => "group"
  | .emptyName => "name"
  | .badSign _ => "sign"
  | .reservedServerId => "server_id"

def ArgumentFault.message : ArgumentFault → String
  | .emptyGroup | .emptyName => "must not be empty"
  | .badSign text => "expected '+' or '-', got " ++ Quoted.quote text
  | .reservedServerId => "the nil id is reserved for tombstones"

namespace CounterError

def message : CounterError → String
  | .notFound group name => "Counter doesn't exist. Group: " ++ group ++ ", Counter Name: " ++ name
  | .readOnlyWriter => "A writer requires a read-write transaction"
  | .deltaOutOfRange delta => "Delta " ++ Decimal.ofSigned delta ++ " is out of range"
  | .invalidArgument fault => "Invalid " ++ fault.argument ++ ": " ++ fault.message
  | .invalidWidth tree expected found =>
    "Corrupted entry in " ++ tree ++ ": expected " ++ Decimal.text expected ++ " bytes, found " ++
      Decimal.text found
  | .unknownSign byte => "Unknown sign byte 0x" ++ Hex.encode [byte]
  | .inconsistentIndex tree fault => "Inconsistent index " ++ tree ++ ": " ++ fault.message
  | .unsupportedFormat found expected =>
    "Unsupported storage format: header " ++ Hex.encode found ++ " does not match " ++
      Hex.encode expected
  | .invalidDocument => "Invalid stored replication document"

def isNotFound : CounterError → Bool
  | .notFound .. => true
  | _ => false

def isInvalidOperation : CounterError → Bool
  | .readOnlyWriter | .deltaOutOfRange _ | .invalidArgument _ => true
  | _ => false

def isCorruption : CounterError → Bool
  | .invalidWidth .. | .unknownSign _ | .inconsistentIndex .. | .unsupportedFormat ..
  | .invalidDocument => true
  | _ => false

end CounterError

/-- The name of a setting in configuration files. -/
def Setting.field : Setting → String
  | .name => "name"
  | .tombstoneRetention => "tombstone_retention_secs"
  | .deletedTombstonesInBatch => "deleted_tombstones_in_batch"
  | .purgeInterval => "purge_interval_secs"
  | .replicationBatchSize => "replication_batch_size"
  | .replicationTimeout => "replication_timeout_ms"

def SettingFault.message : SettingFault → String
  | .empty => "must not be empty"
  | .zero => "must be greater than zero"
  | .outOfRange value => Decimal.ofWord value ++ " is out of range"

def ConfigError.message : ConfigError → String
  | .unreadable path => "Failed to read configuration file " ++ path
  | .malformed => "Failed to parse configuration"
  | .invalidValue setting fault =>
    "Invalid configuration value for " ++ setting.field ++ ": " ++ fault.message

/-- The setting that a failure is about. -/
def ConfigError.setting? : ConfigError → Option Setting
  | .invalidValue setting _ => some setting
  | _ => none

namespace Error

/-- The wording of a failure; a shutdown names the first of its failures. -/
def message : Error → String
  | .engine cause => cause.message
  | .counter cause => cause.message
  | .config cause => cause.message
  | .schedulerGone => "I/O error: scheduler already gone"
  | .shutdown name [] => "shutting down counter storage " ++ name ++ ": 0 error(s), first: none"
  | .shutdown name (first :: rest) =>
    "shutting down counter storage " ++ name ++ ": " ++ Decimal.text (rest.length + 1) ++
      " error(s), first: " ++ first.message

/-- The part of the library that a failure comes from. -/
def area : Error → String
  | .engine _ => "backend"
  | .counter _ => "counters"
  | .config _ => "config"
  | .schedulerGone => "io"
  | .shutdown .. => "aggregate"

/-- Whether something that was asked for does not exist. -/
def isNotFound : Error → Bool
  | .engine cause => cause.isNotFound
  | .counter cause => cause.isNotFound
  | _ => false

/-- Whether a precondition of the operation does not hold. -/
def isInvalidOperation : Error → Bool
  | .engine cause => cause.isInvalidOperation
  | .counter cause => cause.isInvalidOperation
  | _ => false

/-- Whether stored data is damaged. -/
def isCorruption : Error → Bool
  | .engine cause => cause.isCorruption
  | .counter cause => cause.isCorruption
  | _ => false

/-- Whether the configuration is at fault. -/
def isConfig : Error → Bool
  | .config _ => true
  | _ => false

/-- Whether the outside world is at fault. -/
def isIo : Error → Bool
  | .engine cause => cause.isIo
  | .schedulerGone => true
  | _ => false

/-- The failures that were reported together, or the failure alone. -/
def failures : Error → List Error
  | .shutdown _ failures => failures
  | failure => [failure]

end Error

end CounterMesh
