import Depsolve.PackageSpec

/-!
The registry: every known version of every package, and the installed version of each.
Installing a version also makes it available unless an equal version is known already.
-/

namespace Depsolve

/-- The known versions of one package, ascending. -/
abbrev Versions := SortedMap Version PackageSpec

/-- Known and installed package versions. -/
structure Registry where
  available : SortedMap PackageName Versions
  installed : SortedMap PackageName PackageSpec
  deriving DecidableEq

/-- How much a registry holds. -/
structure RegistryStats where
  packages : Nat
  versions : Nat
  installed : Nat
  deriving DecidableEq

namespace Registry

/-- The registry of no package. -/
def empty : Registry := ⟨SortedMap.empty, SortedMap.empty⟩

instance : Inhabited Registry := ⟨empty⟩

/-- The known versions of a package in normal form. -/
def versionsOf (r : Registry) (name : PackageName) : Option Versions := r.available.get? name

/-- The known versions of a package under any spelling. -/
def versions (r : Registry) (name : String) : Option Versions := r.versionsOf (PackageName.of name)

/-- One known version of a package. -/
def get? (r : Registry) (name : String) (version : Version) : Option PackageSpec :=
  (r.versions name).bind (·.get? version)

/-- The installed version of a package in normal form. -/
def installedOf (r : Registry) (name : PackageName) : Option PackageSpec := r.installed.get? name

/-- Whether any version of a package is known. -/
def contains (r : Registry) (name : String) : Bool :=
  (r.versions name).any fun vs => !vs.isEmpty

/-- The registry with one more available version, and the spec that it replaces. -/
def add (r : Registry) (s : PackageSpec) : Registry × Option PackageSpec :=
  let vs := (r.versionsOf s.name).getD SortedMap.empty
  ({ r with available := r.available.insert s.name (vs.insert s.version s) }, vs.get? s.version)

/-- The registry with an installed version, and the spec that was installed before. -/
def install (r : Registry) (s : PackageSpec) : Registry × Option PackageSpec :=
  let vs := (r.versionsOf s.name).getD SortedMap.empty
  (⟨r.available.insert s.name (vs.insertIfNew s.version s), r.installed.insert s.name s⟩,
    r.installed.get? s.name)

/-- How much the registry holds. -/
def stats (r : Registry) : RegistryStats where
  packages := r.available.size
  versions := (r.available.values.map SortedMap.size).foldr (· + ·) 0
  installed := r.installed.size

end Registry

end Depsolve
