import Depsolve.Text.Split

/-!
Conflicts: the problems that a resolution collects instead of giving up, so that all of
them can be mended in one pass.
-/

namespace Depsolve

/-- The kinds of conflict. -/
inductive ConflictKind where
  /-- No version satisfies every constraint on a package. -/
  | version
  /-- A package depends on itself through its dependencies. -/
  | circular
  /-- A package that is needed is not known. -/
  | missing
  /-- Versions satisfy the constraint, but none supports the target platform. -/
  | platform
  /-- Versions satisfy the constraint, but none works with the target runtime. -/
  | runtime
  deriving DecidableEq

/-- A problem found by a resolution. -/
structure Conflict where
  kind : ConflictKind
  /-- The package that the conflict is about. -/
  package : String
  /-- The versions and requirements that clash, or the names along a cycle. -/
  specs : List String
  explanation : String
  deriving DecidableEq

namespace ConflictKind

/-- All kinds, in the order in which they are listed to users. -/
def all : List ConflictKind := [version, circular, missing, platform, runtime]

/-- The name under which a kind is printed and stored. -/
def code : ConflictKind → String
  | version => "VERSION_CONFLICT"
  | circular => "CIRCULAR_DEPENDENCY"
  | missing => "MISSING_DEPENDENCY"
  | platform => "PLATFORM_INCOMPATIBLE"
  | runtime => "RUNTIME_INCOMPATIBLE"

/-- A critical conflict can not be overruled by the user. -/
def isCritical : ConflictKind → Bool
  | version | circular => true
  | missing | platform | runtime => false

/-- How a user can mend a conflict of the kind. -/
def advice : ConflictKind → String
  | version => "Relax one of the constraints or pin a version that satisfies all of them"
  | circular => "Remove circular dependencies by restructuring your packages"
  | missing => "Check the package name spelling or register the package metadata"
  | platform => "Pick a package version that supports the target platform"
  | runtime => "Pick a package version that supports the target runtime"

end ConflictKind

namespace Conflict

/-- The conflict of a cycle through the packages of `path`, whose last entry repeats an
earlier one. -/
def cycle (path : List String) : Conflict where
  kind := .circular
  package := path.getLast?.getD ""
  specs := path
  explanation := "Circular dependency detected: " ++ Text.joinWith " -> " path

/-- Whether the conflict is critical. -/
def isCritical (c : Conflict) : Bool := c.kind.isCritical

/-- The conflict in one line. -/
def render (c : Conflict) : String := c.kind.code ++ ": " ++ c.explanation

end Conflict

end Depsolve
