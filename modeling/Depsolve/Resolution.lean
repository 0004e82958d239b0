import Depsolve.Conflict
import Depsolve.InsertionMap
import Depsolve.PackageSpec

/-!
What a resolution comes to: the chosen specs, the conflicts and the order of
installation.
-/

namespace Depsolve

/-- The outcome of a resolution. -/
structure Resolution where
  /-- The chosen spec under each name, in the order of the choices. -/
  resolved : InsertionMap String PackageSpec
  /-- The conflicts in the order in which they were found. -/
  conflicts : List Conflict
  /-- The names, dependencies in front of their dependents. -/
  order : List String

namespace Resolution

/-- Whether there is no conflict of any kind. -/
def isSuccessful (r : Resolution) : Bool := r.conflicts.isEmpty

/-- The conflicts that can not be overruled. -/
def critical (r : Resolution) : List Conflict := r.conflicts.filter (·.isCritical)

/-- The conflicts of one kind. -/
def conflictsOf (r : Resolution) (kind : ConflictKind) : List Conflict :=
  r.conflicts.filter (·.kind = kind)

/-- The chosen spec of a package under any spelling of its name. -/
def get? (r : Resolution) (name : String) : Option PackageSpec := r.resolved.get? (normalize name)

/-- Whether two resolutions choose the same specs, in whatever order, and agree in the
rest. -/
def agrees (a b : Resolution) : Bool :=
  a.resolved.sameEntries b.resolved && a.conflicts == b.conflicts && a.order == b.order

end Resolution

end Depsolve
