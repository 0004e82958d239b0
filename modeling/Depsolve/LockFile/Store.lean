import Depsolve.FileTree
import Depsolve.LockFile.Basic

/-!
Lock files on disk.
-/

namespace Depsolve.LockFile

/-- The lock in a file. -/
def load (t : FileTree) (path : String) : Except Error LockFile :=
  match t.read? path with
  | some text => parse text
  | none => .error (.inaccessible ("Failed to read lock file " ++ path))

/-- The files with a lock written to a path. -/
def store (l : LockFile) (t : FileTree) (path : String) : Except Error FileTree :=
  match t.write? path (.text l.render) with
  | some t => .ok t
  | none => .error (.inaccessible ("Failed to write lock file " ++ path))

end Depsolve.LockFile
