import CounterMesh.Disk
import CounterMesh.Engine.Archive
import CounterMesh.OrdMap.Lookup

/-!
# Files of databases

A file that is written at a path is read back there, and what reading a file
gives stands for a database.
-/

namespace CounterMesh

namespace Disk

variable {disk : Disk} {path name : String}

theorem read_of_missing (hpath : follow path = .file name) (hmissing : disk.get? name = none) :
    disk.read path = .missing := by
  rw [read, hpath]
  simp only [hmissing]

/-- A file that was written is read back. -/
theorem read_insert (disk : Disk) (hpath : follow path = .file name) (contents : Bytes) :
    read (disk.insert name contents) path = .contents contents := by
  rw [read, hpath]
  simp only [OrdMap.get?_insert_self]

theorem write?_of_file (disk : Disk) (hpath : follow path = .file name) (contents : Bytes) :
    disk.write? path contents = some (disk.insert name contents) := by
  rw [write?, hpath]

theorem run_write (disk : Disk) (hpath : follow path = .file name) (contents : Bytes) :
    (Files.write path contents : StateM Disk Bool).run disk =
      (true, disk.insert name contents) := by
  simp only [Files.write, StateT.run_bind, StateT.run_get, pure_bind,
    disk.write?_of_file hpath contents]
  rfl

end Disk

/-- The database in what reading a file gives. -/
def FileRead.database : FileRead → Except Error Database
  | .contents bytes => Database.ofFile (some bytes)
  | .missing => Database.ofFile none
  | .unreadable => .error (.engine .fileAccess)

/-- A file that was written holds the database in what was written. -/
theorem Disk.database_insert (disk : Disk) {path name : String}
    (hpath : Disk.follow path = .file name) {contents : Bytes} {db : Database}
    (h : Database.ofFile (some contents) = .ok db) :
    (Disk.read (disk.insert name contents) path).database = .ok db := by
  rw [disk.read_insert hpath]
  exact h

end CounterMesh
