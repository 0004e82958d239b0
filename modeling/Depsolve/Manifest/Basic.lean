import Depsolve.Context
import Depsolve.Document.Records
import Depsolve.Requirement

/-!
Project manifests: what a project is called, the environment it is for, and the packages
it depends on. `validate` tells whether a manifest makes sense as a whole.
-/

namespace Depsolve

/-- What a project says about itself. -/
structure Project where
  name : String
  version : Option Version
  description : Option String
  deriving DecidableEq

/-- The settings of the resolver, as they are spelled. -/
structure Settings where
  runtime : Option String
  platform : Option String
  allowPrerelease : Bool
  preferInstalled : Bool
  deriving DecidableEq

/-- What a manifest asks of a package. -/
inductive DependencyEntry where
  /-- A constraint. -/
  | simple (constraint : String)
  /-- A constraint that may be left out, and groups of optional dependencies. -/
  | detailed (constraint : Option String) (extras : List String)
  deriving DecidableEq

/-- A manifest. -/
structure Manifest where
  project : Option Project
  settings : Settings
  /-- What is asked of each package, by the spelling of its name. -/
  dependencies : SortedMap String DependencyEntry
  deriving DecidableEq

namespace DependencyEntry

/-- The constraint text; without one, every version will do. -/
def constraint : DependencyEntry → String
  | simple c => c
  | detailed c _ => c.getD "*"

/-- The groups that are asked for. -/
def extras : DependencyEntry → List String
  | simple _ => []
  | detailed _ extras => extras

/-- Whether the entry is a constraint only. -/
def isSimple : DependencyEntry → Bool
  | simple _ => true
  | detailed .. => false

/-- The requirement with one more group, whose name has to be usable. -/
def addExtra (field : String) (r : Requirement) (extra : String) : Except Error Requirement :=
  if isValidName extra then .ok (r.withExtra extra)
  else .error (.invalidSetting field ("Invalid extra name '" ++ extra ++ "'"))

/-- The requirement that an entry makes. -/
def toRequirement (e : DependencyEntry) (name : String) : Except Error Requirement := do
  let field := "dependencies." ++ name
  let root ← (Requirement.parse name e.constraint).mapError fun cause =>
    .invalidSetting field cause.message
  e.extras.foldlM (addExtra field) root

/-! ### As data -/

/-- A constraint under its key. -/
def decodeConstraint (entries : List (String × Datum)) : Except DecodeError (Option String) :=
  match entries.find? (·.1 = "version") with
  | some (_, d) => Decoder.orNull Decoder.text d
  | none => .ok none

/-- Groups under their key. -/
def decodeExtras (entries : List (String × Datum)) : Except DecodeError (List String) :=
  match entries.find? (·.1 = "extras") with
  | some (_, d) => Decoder.list Decoder.text d
  | none => .ok []

/-- An entry is a text or a mapping; what is wrong inside the mapping is not told. -/
def decode : Decoder DependencyEntry :=
  let mismatch : DecodeError :=
    .of "data did not match any variant of untagged enum DependencySpec"
  Decoder.located fun
    | .text s => .ok (simple s)
    | .mapping entries =>
      match decodeConstraint entries, decodeExtras entries with
      | .ok c, .ok es => .ok (detailed c es)
      | _, _ => .error mismatch
    | _ => .error mismatch

/-- An entry as data; what is left out is not written. -/
def toJson : DependencyEntry → Json
  | simple c => .text c
  | detailed c es =>
    .object ((c.map fun c => ("version", .text c)).toList
      ++ if es.isEmpty then [] else [("extras", .array (es.map .text))])

end DependencyEntry

namespace Settings

/-- The settings that leave everything open. -/
def default : Settings := ⟨none, none, false, false⟩

instance : Inhabited Settings := ⟨default⟩

/-- The setting of the runtime as a version. -/
def runtimeVersion (s : Settings) : Except Error (Option Version) :=
  match s.runtime with
  | none => .ok none
  | some text =>
    match Version.parse text with
    | .ok v => .ok (some v)
    | .error cause =>
      .error (.invalidSetting "resolver.runtime-version"
        ("Invalid runtime version '" ++ text ++ "': " ++ cause.message))

/-- The setting of the platform without white space at its ends. -/
def platformName (s : Settings) : Except Error (Option String) :=
  match s.platform with
  | none => .ok none
  | some text =>
    if (Text.trim text).isEmpty then
      .error (.invalidSetting "resolver.platform-version" "Platform version must not be empty")
    else .ok (some (Text.trim text))

/-- The environment that the settings describe. -/
def toContext (s : Settings) : Except Error Context := do
  let runtime ← s.runtimeVersion
  let platform ← s.platformName
  return ⟨runtime, platform, s.allowPrerelease, s.preferInstalled⟩

/-- The fields of the settings. -/
def layout : Layout :=
  ⟨"ResolverSettings",
    ["runtime-version", "platform-version", "allow-prerelease", "prefer-installed"]⟩

/-- The settings of a record, all of which may be left out. -/
def decode : Decoder Settings :=
  layout.decode fun r =>
    Settings.mk <$> layout.defaulted r "runtime-version" none (Decoder.orNull Decoder.text)
      <*> layout.defaulted r "platform-version" none (Decoder.orNull Decoder.text)
      <*> layout.defaulted r "allow-prerelease" false Decoder.bool
      <*> layout.defaulted r "prefer-installed" false Decoder.bool

/-- The settings as data. -/
def toJson (s : Settings) : Json :=
  .object ((s.runtime.map fun v => ("runtime-version", .text v)).toList
    ++ (s.platform.map fun v => ("platform-version", .text v)).toList
    ++ [("allow-prerelease", .bool s.allowPrerelease),
      ("prefer-installed", .bool s.preferInstalled)])

end Settings

namespace Project

/-- The fields of a project. -/
def layout : Layout := ⟨"ProjectSection", ["name", "version", "description"]⟩

/-- The project of a record. -/
def decode : Decoder Project :=
  layout.decode fun r =>
    Project.mk <$> layout.required r "name" Decoder.text
      <*> layout.defaulted r "version" none (Decoder.orNull Version.decode)
      <*> layout.defaulted r "description" none (Decoder.orNull Decoder.text)

/-- The project as data. -/
def toJson (p : Project) : Json :=
  .object (("name", .text p.name) :: (p.version.map fun v => ("version", v.toJson)).toList
    ++ (p.description.map fun d => ("description", .text d)).toList)

end Project

namespace Manifest

/-- The manifest that says nothing. -/
def default : Manifest := ⟨none, Settings.default, SortedMap.empty⟩

instance : Inhabited Manifest := ⟨default⟩

/-- The requirements in the order of the names. -/
def requirements (m : Manifest) : Except Error (List Requirement) :=
  m.dependencies.entries.mapM fun (name, e) => e.toRequirement name

/-- Refuses a project without a usable name. -/
def validateProject (m : Manifest) : Except Error Unit :=
  match m.project with
  | some p =>
    if isValidName p.name then .ok ()
    else .error (.invalidSetting "project.name" ("Invalid project name '" ++ p.name ++ "'"))
  | none => .ok ()

/-- Refuses a manifest that makes no sense: the name of the project, the settings and the
dependencies are checked in this order. -/
def validate (m : Manifest) : Except Error Unit := do
  m.validateProject
  let _ ← m.settings.toContext
  let _ ← m.requirements

/-- The fields of a manifest. -/
def layout : Layout := ⟨"SprigToml", ["project", "resolver", "dependencies"]⟩

/-- The manifest of a record. -/
def decode : Decoder Manifest :=
  layout.decode fun r =>
    Manifest.mk <$> layout.defaulted r "project" none (Decoder.orNull Project.decode)
      <*> layout.defaulted r "resolver" Settings.default Settings.decode
      <*> layout.defaulted r "dependencies" SortedMap.empty
        (fun d => (Decoder.entries DependencyEntry.decode d).map SortedMap.ofList)

/-- The manifest as data. -/
def toJson (m : Manifest) : Json :=
  .object ((m.project.map fun p => ("project", p.toJson)).toList
    ++ [("resolver", m.settings.toJson),
      ("dependencies", .object (m.dependencies.entries.map fun e => (e.1, e.2.toJson)))])

end Manifest

end Depsolve
