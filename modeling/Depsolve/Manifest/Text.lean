import Depsolve.Manifest.Basic
import Depsolve.Toml.Read
import Depsolve.Toml.Write

/-!
Manifests in writing. Reading finds faults of three kinds, in this order: the text is no
document, the document is no manifest, or the manifest makes no sense. The first two have
a place in the text, given by line and column.
-/

namespace Depsolve

/-! ### Places -/

/-- The characters in front of a place given in bytes, if a character begins there or the text
ends there. -/
def charsBefore? : Nat → List Char → Option (List Char)
  | 0, _ => some []
  | _ + 1, [] => none
  | offset + 1, c :: cs =>
    if c.utf8Size ≤ offset + 1 then (charsBefore? (offset + 1 - c.utf8Size) cs).map (c :: ·)
    else none

/-- The line and the column of a place given in bytes. Both count from one, and columns
count characters. A place that is none between characters counts as the end of the text. -/
def lineColumn (text : String) (offset : Nat) : Nat × Nat :=
  let before := (charsBefore? offset text.toList).getD text.toList
  (before.count '\n' + 1, (before.reverse.takeWhile (· ≠ '\n')).length + 1)

namespace Manifest

/-! ### Reading -/

/-- A fault at a place; a fault of the whole text has none. -/
def faultAt (text : String) (place : Option Nat) (reason : Option String) : ManifestFault :=
  match place with
  | some offset => ⟨reason, (lineColumn text offset).1, (lineColumn text offset).2⟩
  | none => ⟨reason, 0, 0⟩

/-- The manifest that a text spells. -/
def parse (text : String) : Except Error Manifest :=
  match Toml.read text with
  | .error place => .error (.unreadableManifest none (faultAt text (some place) none))
  | .ok document =>
    match decode document with
    | .error e =>
      .error (.unreadableManifest none (faultAt text e.place (some (Text.trim e.reason))))
    | .ok m => m.validate.map fun _ => m

/-! ### Writing -/

/-- The lines of a project. -/
def projectChars (p : Project) : List Char :=
  Toml.headerChars ["project"] ++ Toml.entryChars "name" (Toml.textChars p.name.toList)
    ++ (p.version.map fun v =>
      Toml.entryChars "version" (Toml.textChars v.render.toList)).getD []
    ++ (p.description.map fun d =>
      Toml.entryChars "description" (Toml.textChars d.toList)).getD []

/-- A truth value. -/
def boolChars (b : Bool) : List Char := if b then "true".toList else "false".toList

/-- The lines of the settings. -/
def settingsChars (s : Settings) : List Char :=
  Toml.headerChars ["resolver"]
    ++ (s.runtime.map fun v =>
      Toml.entryChars "runtime-version" (Toml.textChars v.toList)).getD []
    ++ (s.platform.map fun v =>
      Toml.entryChars "platform-version" (Toml.textChars v.toList)).getD []
    ++ Toml.entryChars "allow-prerelease" (boolChars s.allowPrerelease)
    ++ Toml.entryChars "prefer-installed" (boolChars s.preferInstalled)

/-- The line of a dependency that is a constraint only. -/
def simpleChars (e : String × DependencyEntry) : List Char :=
  Toml.entryChars e.1 (Toml.textChars e.2.constraint.toList)

/-- The lines of a dependency with a table of its own. -/
def detailedChars (name : String) (constraint : Option String) (extras : List String) :
    List Char :=
  Toml.headerChars ["dependencies", name]
    ++ (constraint.map fun c => Toml.entryChars "version" (Toml.textChars c.toList)).getD []
    ++ if extras.isEmpty then [] else Toml.entryChars "extras" (Toml.textsChars extras)

/-- The tables of the dependencies. The one in front holds the constraints; it is left out
if there are only dependencies with tables of their own. -/
def dependencyTables (m : Manifest) : List (List Char) :=
  let entries := m.dependencies.entries
  let simple := entries.filter (·.2.isSimple)
  let tables := entries.filterMap fun (name, e) =>
    match e with
    | .simple _ => none
    | .detailed c es => some (detailedChars name c es)
  if simple.isEmpty && !entries.isEmpty then tables
  else (Toml.headerChars ["dependencies"] ++ simple.flatMap simpleChars) :: tables

/-- The text of a manifest: its tables with blank lines between them. -/
def render (m : Manifest) : String :=
  String.ofList (List.intercalate ['\n']
    ((m.project.map projectChars).toList ++ settingsChars m.settings :: m.dependencyTables))

end Manifest

end Depsolve
