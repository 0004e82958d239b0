import Depsolve.Error
import Depsolve.PackageSpec

/-!
Requirements, the roots of a resolution, and the reasons for which a package is a
dependency of another.
-/

namespace Depsolve

/-- A package that has to be present, the constraint it is under and the groups of
optional dependencies that are wanted with it. -/
structure Requirement where
  name : String
  constraint : Constraint
  extras : SortedSet String
  deriving DecidableEq

/-- Why a package depends on another. -/
inductive DependencyKind where
  /-- It always does. -/
  | required
  /-- It does because this group was requested. -/
  | extra (group : String)
  deriving DecidableEq

namespace Requirement

/-- The requirement of a package without groups. -/
def new (name : String) (constraint : Constraint) : Requirement :=
  ⟨normalize name, constraint, SortedMap.empty⟩

/-- The requirement that a name and a constraint text spell; only a blank name or a
malformed constraint is an error. -/
def parse (name constraint : String) : Except Error Requirement :=
  let name := Text.trim name
  if name.isEmpty then .error (.invalidPackageName name)
  else match Constraint.parse constraint with
    | .ok c => .ok (new name c)
    | .error cause => .error (.ofConstraint name constraint cause)

/-- The requirement with one more group. -/
def withExtra (r : Requirement) (group : String) : Requirement :=
  { r with extras := r.extras.add (normalize group) }

/-- The name, the groups in brackets and the constraint. -/
def render (r : Requirement) : String :=
  let groups :=
    if r.extras.isEmpty then "" else "[" ++ Text.joinWith "," r.extras.toList ++ "]"
  r.name ++ groups ++ " " ++ r.constraint.render

end Requirement

namespace DependencyKind

/-- Whether the dependency is installed only on request. -/
def isOptional : DependencyKind → Bool
  | required => false
  | extra _ => true

/-- The kind in words. -/
def render : DependencyKind → String
  | required => "required"
  | extra group => "extra '" ++ group ++ "'"

end DependencyKind

end Depsolve
