import Depsolve.Context
import Depsolve.Document.Records
import Depsolve.Error
import Depsolve.Json.Read
import Depsolve.Resolution

/-!
Lock files: a successful resolution in writing, with all that is needed to restore it
without resolving again. A lock that is read has to be consistent: its packages are named
in normal form, and its order of installation names each of them once.
-/

namespace Depsolve

/-- The dependencies of a locked package by name. -/
abbrev LockedDependencies := SortedMap String Constraint

/-- What a lock file keeps of a package. -/
structure LockedPackage where
  version : Version
  runtime : Constraint
  platforms : SortedSet String
  dependencies : LockedDependencies
  /-- The groups of optional dependencies. -/
  extras : SortedMap String LockedDependencies
  prerelease : Bool
  deriving DecidableEq

/-- A lock file. -/
structure LockFile where
  formatVersion : String
  /-- The runtime that the packages were chosen for. -/
  runtime : Option String
  /-- The platform that the packages were chosen for. -/
  platform : Option String
  packages : InsertionMap String LockedPackage
  /-- The names of the packages, dependencies in front of their dependents. -/
  order : List String
  deriving DecidableEq

namespace LockedPackage

/-! ### Packages -/

/-- The dependencies by the texts of their names. -/
def lockDependencies (deps : Dependencies) : LockedDependencies :=
  SortedMap.ofList (deps.entries.map fun e => (e.1.text, e.2))

/-- What is kept of a spec. -/
def ofSpec (s : PackageSpec) : LockedPackage where
  version := s.version
  runtime := s.runtime
  platforms := SortedSet.ofList (s.platforms.toList.map (·.text))
  dependencies := lockDependencies s.dependencies
  extras := SortedMap.ofList (s.extras.entries.map fun e => (e.1.text, lockDependencies e.2))
  prerelease := s.prerelease

/-- The spec under a name. -/
def toSpec (p : LockedPackage) (name : String) : PackageSpec :=
  let bare := (((PackageSpec.new name p.version).withRuntime p.runtime).withPlatforms
    p.platforms.toList).withPrerelease p.prerelease
  let withRequired := p.dependencies.entries.foldl
    (fun s e => s.withDependency e.1 e.2) bare
  p.extras.entries.foldl (fun s group =>
    group.2.entries.foldl (fun s e => s.withOptionalDependency group.1 e.1 e.2) s) withRequired

/-- The fields of a package. -/
def layout : Layout :=
  ⟨"LockedPackage", ["version", "runtime_version_constraint", "supported_platform_versions",
    "dependencies", "optional_dependencies", "is_prerelease"]⟩

/-- Dependencies as a record. -/
def dependenciesJson (deps : LockedDependencies) : Json :=
  .object (deps.entries.map fun e => (e.1, e.2.toJson))

/-- The package as a record. -/
def toJson (p : LockedPackage) : Json :=
  .object [("version", p.version.toJson), ("runtime_version_constraint", p.runtime.toJson),
    ("supported_platform_versions", .array (p.platforms.toList.map .text)),
    ("dependencies", dependenciesJson p.dependencies),
    ("optional_dependencies",
      .object (p.extras.entries.map fun e => (e.1, dependenciesJson e.2))),
    ("is_prerelease", .bool p.prerelease)]

/-- Values by key, the last value of a repeated key. -/
def decodeMap {α : Type} (f : Decoder α) : Decoder (SortedMap String α) := fun d =>
  (Decoder.entries f d).map SortedMap.ofList

/-- The package of a record. -/
def decode : Decoder LockedPackage :=
  layout.decode fun r =>
    LockedPackage.mk <$> layout.required r "version" Version.decode
      <*> layout.required r "runtime_version_constraint" Constraint.decode
      <*> layout.required r "supported_platform_versions"
        (fun d => (Decoder.list Decoder.text d).map SortedSet.ofList)
      <*> layout.required r "dependencies" (decodeMap Constraint.decode)
      <*> layout.required r "optional_dependencies" (decodeMap (decodeMap Constraint.decode))
      <*> layout.required r "is_prerelease" Decoder.bool

end LockedPackage

namespace LockFile

/-! ### Locking and restoring -/

/-- The format that lock files are written in. -/
def currentFormat : String := "1.0"

/-- The lock of a successful resolution. -/
def ofResolution (r : Resolution) (context : Context) : Except Error LockFile :=
  if r.isSuccessful then .ok {
    formatVersion := currentFormat
    runtime := context.runtime.map Version.render
    platform := context.platform
    packages := r.resolved.mapEntries fun _ s => LockedPackage.ofSpec s
    order := r.order }
  else .error (.unsuccessfulResolution r.conflicts.length)

/-- The resolution that is locked. -/
def toResolution (l : LockFile) : Resolution where
  resolved := l.packages.mapEntries fun name p => p.toSpec name
  conflicts := []
  order := l.order

/-! ### Consistency -/

/-- Whether a format version is known: it is 1, with any further parts. -/
def isKnownFormat (format : String) : Bool :=
  match Text.splitOn '.' format.toList with
  | major :: parts =>
    major == ['1'] && parts.all fun part => !part.isEmpty && part.all Char.isDigit
  | [] => false

/-- Refuses unknown formats. -/
def checkFormat (format : String) : Except Error Unit :=
  if isKnownFormat format then .ok () else .error (.unsupportedLockFormat format "1.x")

/-- Refuses an order that names a package twice or one that is not locked; `seen` are the
names that stand in front. -/
def checkOrder (l : LockFile) (seen : List String) : List String → Except Error Unit
  | [] => .ok ()
  | name :: rest =>
    if name ∈ seen then
      .error (.unreadableLock (some ("Duplicate package in installation order: " ++ name)))
    else if l.packages.contains name then l.checkOrder (name :: seen) rest
    else .error (.unreadableLock (some ("Installation order names unlocked package: " ++ name)))

/-- Refuses inconsistent locks. -/
def verify (l : LockFile) : Except Error Unit := do
  checkFormat l.formatVersion
  match l.packages.keys.find? fun name => normalize name ≠ name with
  | some name =>
    throw (.unreadableLock (some ("Locked package name is not normalized: " ++ name ++ " (expected "
      ++ normalize name ++ ")")))
  | none => pure ()
  l.checkOrder [] l.order
  match l.packages.keys.find? (· ∉ l.order) with
  | some name =>
    throw (.unreadableLock (some ("Locked package missing from installation order: " ++ name)))
  | none => pure ()

/-- The locked resolution, provided that the lock is consistent. -/
def restore (l : LockFile) : Except Error Resolution := do
  l.verify
  return l.toResolution

/-! ### The written form -/

/-- The fields of a lock. -/
def layout : Layout :=
  ⟨"LockFile", ["format_version", "runtime_version", "platform_version", "packages",
    "installation_order"]⟩

/-- A text or null. -/
def optionalText : Option String → Json
  | some s => .text s
  | none => .null

/-- The lock as a record. -/
def toJson (l : LockFile) : Json :=
  .object [("format_version", .text l.formatVersion),
    ("runtime_version", optionalText l.runtime), ("platform_version", optionalText l.platform),
    ("packages", .object (l.packages.entries.map fun e => (e.1, e.2.toJson))),
    ("installation_order", .array (l.order.map .text))]

/-- The text of a lock file. -/
def render (l : LockFile) : String := l.toJson.pretty

/-- The lock of a record. Packages keep the order of the document. -/
def decode : Decoder LockFile :=
  layout.decode fun r =>
    LockFile.mk <$> layout.required r "format_version" Decoder.text
      <*> layout.optional r "runtime_version" Decoder.text
      <*> layout.optional r "platform_version" Decoder.text
      <*> layout.required r "packages"
        (fun d => (Decoder.entries LockedPackage.decode d).map InsertionMap.ofList)
      <*> layout.required r "installation_order" (Decoder.list Decoder.text)

/-- The format version of a document, if it gives one. -/
def formatOf? : Datum → Option String
  | .mapping entries =>
    match entries.find? (·.1 = "format_version") with
    | some (_, .text format) => some format
    | _ => none
  | _ => none

/-- The lock that a text spells. The format is checked in front of all else, and the lock
has to be consistent. -/
def parse (text : String) : Except Error LockFile := do
  let some document := Json.readDocument text | throw (.unreadableLock none)
  let some format := formatOf? document
    | throw (.unreadableLock (some "missing field `format_version`"))
  checkFormat format
  match decode document with
  | .error e => throw (.unreadableLock (some e.reason))
  | .ok lock =>
    lock.verify
    return lock

/-- The lock that a text spells, taken as it stands. -/
def parseUnchecked (text : String) : Option LockFile := do
  (decode (← Json.read text)).toOption

end LockFile

end Depsolve
