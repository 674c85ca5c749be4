import CounterMesh.Bytes
import CounterMesh.OrdMap

/-!
# Files

A store is read from a file and saved to one. `Files` is what it asks of the
place where it runs; `Disk` is a directory held as a value, on which the same
operations can be reasoned about.
-/

namespace CounterMesh

/-- What reading a file gives. -/
inductive FileRead where
  | contents (bytes : Bytes)
  | missing
  /-- Something is there that cannot be read as a file. -/
  | unreadable
  deriving DecidableEq, Repr

namespace FileRead

/-- The bytes of a file that could be read. -/
def bytes? : FileRead → Option Bytes
  | .contents bytes => some bytes
  | _ => none

end FileRead

/-- Access to files by their paths. -/
class Files (m : Type → Type) where
  read : (path : String) → m FileRead
  /-- Replaces the contents of a file, and tells whether that was possible. -/
  write : (path : String) → (contents : Bytes) → m Bool

/-- A directory that holds files and no further directories, by their names. It lies in the
system's directory for temporary files. -/
abbrev Disk := OrdMap String Bytes

namespace Disk

/-- Where a walk along a path stands. -/
inductive Place where
  /-- The directory itself. -/
  | here
  /-- The directory above all others. -/
  | root
  /-- A directory of the system below it. -/
  | system (name : String)
  /-- The device that keeps nothing and reads as an empty file. -/
  | sink
  /-- A name in the directory, whether there is such a file or not. -/
  | file (name : String)
  /-- Something below a name in the directory, which is no directory itself. -/
  | below (name : String)
  /-- Something that is not there. -/
  | nowhere
  /-- A path that cannot be followed. -/
  | barred
  deriving DecidableEq, Repr

/-- The directories of every system. -/
def systemNames : List String :=
  ["bin", "dev", "etc", "home", "lib", "opt", "proc", "root", "sbin", "sys", "tmp", "usr", "var"]

/-- How many bytes a name may have. -/
def maxName : Nat := 255

/-- How many bytes a path may have. -/
def maxPath : Nat := 4095

/-- Takes a step from a place. Only directories can be left or entered further, and the step to a
dot stays in them. -/
def Place.enter (place : Place) (step : String) : Place :=
  match place with
  | .nowhere => .nowhere
  | .barred | .sink => .barred
  | .file name | .below name => .below name
  | directory =>
    if step = "" ∨ step = "." then directory
    else if step = ".." then
      match directory with
      | .here => .system "tmp"
      | _ => .root
    else if maxName < step.utf8ByteSize then .barred
    else
      match directory with
      | .here => .file step
      | .root => if step ∈ systemNames then .system step else .nowhere
      | .system "dev" => if step = "null" then .sink else .nowhere
      | _ => .nowhere

/-- Follows a path. -/
def follow (path : String) : Place :=
  if maxPath < path.utf8ByteSize then .barred
  else
    let start := if path.toList.head? = some '/' then Place.root else Place.here
    ((path.toList.splitOn '/').map String.ofList).foldl Place.enter start

variable (disk : Disk)

/-- Reads the file at a path. -/
def read (path : String) : FileRead :=
  match follow path with
  | .file name =>
    match disk.get? name with
    | some bytes => .contents bytes
    | none => .missing
  | .below name => if disk.contains name then .unreadable else .missing
  | .sink => .contents []
  | .nowhere => .missing
  | .here | .root | .system _ | .barred => .unreadable

/-- Replaces the file at a path, where a file can be. -/
def write? (path : String) (contents : Bytes) : Option Disk :=
  match follow path with
  | .file name => some (disk.insert name contents)
  | .sink => some disk
  | _ => none

end Disk

/-- A program that runs on a disk of its own. -/
instance : Files (StateM Disk) where
  read path := return (← get).read path
  write path contents := do
    match (← get).write? path contents with
    | some disk => set disk; return true
    | none => return false

end CounterMesh
