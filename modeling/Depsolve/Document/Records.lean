import Depsolve.Conflict
import Depsolve.Document.Decode
import Depsolve.Graph.Basic
import Depsolve.Json.Basic

/-!
The written forms of versions, constraints, dependencies and conflicts as parts of
documents: for each the decoder and the JSON value it is written as.
-/

namespace Depsolve

/-! ### Versions and constraints -/

/-- A version is written as its text. -/
def Version.toJson (v : Version) : Json := .text v.render

/-- A version is read from a text. -/
def Version.decode : Decoder Version :=
  Decoder.spelled fun s => (Version.parse s).mapError VersionError.message

/-- A constraint is written as its text. -/
def Constraint.toJson (c : Constraint) : Json := .text c.render

/-- A constraint is read from a text. -/
def Constraint.decode : Decoder Constraint :=
  Decoder.spelled fun s => (Constraint.parse s).mapError VersionError.message

/-! ### Dependencies -/

namespace DependencyKind

/-- A required dependency is written as a word, one of a group as an entry with the
group. -/
def toJson : DependencyKind → Json
  | required => .text "Required"
  | extra group => .object [("Extra", .text group)]

/-- A word or an entry. -/
def decode : Decoder DependencyKind := fun d => do
  match ← Decoder.variant d with
  | ("Required", none) => return required
  | ("Required", some d) => Decoder.located (fun
      | .null => .ok required
      | d => Decoder.mismatch d "unit") d
  | ("Extra", some d) => return extra (← Decoder.text d)
  | ("Extra", none) => throw (.of "invalid type: unit variant, expected newtype variant")
  | (other, _) => Decoder.unknownVariant other ["Required", "Extra"]

end DependencyKind

namespace PackageId

/-- The fields of a package. -/
def layout : Layout := ⟨"PackageId", ["name", "version"]⟩

/-- The package as a record. -/
def toJson (p : PackageId) : Json :=
  .object [("name", .text p.name), ("version", p.version.toJson)]

/-- The package of a record. -/
def decode : Decoder PackageId :=
  layout.decode fun r =>
    PackageId.mk <$> layout.required r "name" Decoder.text
      <*> layout.required r "version" Version.decode

end PackageId

namespace DependencyEdge

/-- The fields of an edge. -/
def layout : Layout := ⟨"DependencyEdge", ["constraint", "kind"]⟩

/-- The edge as a record. -/
def toJson (e : DependencyEdge) : Json :=
  .object [("constraint", e.constraint.toJson), ("kind", e.kind.toJson)]

/-- The edge of a record. -/
def decode : Decoder DependencyEdge :=
  layout.decode fun r =>
    DependencyEdge.mk <$> layout.required r "constraint" Constraint.decode
      <*> layout.required r "kind" DependencyKind.decode

end DependencyEdge

/-! ### Conflicts -/

namespace ConflictKind

/-- A kind is written as its code. -/
def toJson (k : ConflictKind) : Json := .text k.code

/-- A kind is read from its code. -/
def decode : Decoder ConflictKind := Decoder.oneOf (all.map fun k => (k.code, k))

end ConflictKind

namespace Conflict

/-- The fields of a conflict. -/
def layout : Layout :=
  ⟨"DependencyConflict", ["type", "package_name", "conflicting_specs", "message"]⟩

/-- The conflict as a record. -/
def toJson (c : Conflict) : Json :=
  .object [("type", c.kind.toJson), ("package_name", .text c.package),
    ("conflicting_specs", .array (c.specs.map .text)), ("message", .text c.explanation)]

/-- The conflict of a record. -/
def decode : Decoder Conflict :=
  layout.decode fun r =>
    Conflict.mk <$> layout.required r "type" ConflictKind.decode
      <*> layout.required r "package_name" Decoder.text
      <*> layout.required r "conflicting_specs" (Decoder.list Decoder.text)
      <*> layout.required r "message" Decoder.text

end Conflict

end Depsolve
