import Depsolve.FileTree
import Depsolve.Manifest.Text

/-!
Where the manifest of a project is: in the working directory or in the nearest directory
above it that has one. The lock file belongs into the same directory.
-/

namespace Depsolve

namespace Manifest

/-- The name of manifest files. -/
def fileName : String := "sprig.toml"

/-- The name of lock files. -/
def lockFileName : String := "sprig.lock"

/-- The nearest file of some name, looked for from a directory upwards. -/
def find? (t : FileTree) (directory name : String) : Option String :=
  ((Path.ancestors directory).map (Path.join · name)).find? t.exists?

/-- The manifest in a file. -/
def load (t : FileTree) (path : String) : Except Error Manifest :=
  match t.read? path with
  | none => .error (.inaccessible ("Failed to read " ++ path))
  | some text =>
    (parse text).mapError fun
      | .unreadableManifest _ fault => .unreadableManifest (some path) fault
      | e => e

/-- The manifest of the project that a directory belongs to, and where it is. -/
def loadProject (t : FileTree) (directory : String) : Except Error (Manifest × String) :=
  match find? t directory fileName with
  | some path => (load t path).map (·, path)
  | none =>
    .error (.invalidSetting "config"
      ("No " ++ fileName ++ " found in " ++ directory ++ " or parent directories"))

/-- The manifest of the project, and where it is; without one, the manifest that says
nothing. -/
def loadOrDefault (t : FileTree) (directory : String) :
    Except Error (Manifest × Option String) :=
  match find? t directory fileName with
  | some _ => (loadProject t directory).map fun (m, path) => (m, some path)
  | none => .ok (Manifest.default, none)

/-- Where the lock file belongs: next to the manifest, or into the working directory. -/
def lockPath (directory : String) (source : Option String) : String :=
  Path.join ((source.map Path.parent).getD directory) lockFileName

end Manifest

end Depsolve
