import Depsolve.Constraint.Text
import Depsolve.PackageName
import Depsolve.Platform
import Depsolve.SortedMap

/-!
Package specs: one version of one package with what it needs. A spec names the runtime
versions and platforms it supports, its required dependencies, and further dependencies
in groups that are installed only on request. No group is empty: it comes into being with its first
dependency.
-/

namespace Depsolve

/-- Dependencies by name, each with the constraint it is under. -/
abbrev Dependencies := SortedMap PackageName Constraint

/-- One version of one package. -/
structure PackageSpec where
  name : PackageName
  version : Version
  /-- The runtime versions the package works with. -/
  runtime : Constraint
  /-- The platforms the package supports; none listed means all. -/
  platforms : SortedSet Platform
  dependencies : Dependencies
  /-- The groups of dependencies that are installed on request. -/
  extras : SortedMap PackageName Dependencies
  prerelease : Bool
  extras_nonempty : ∀ group ∈ extras.entries, group.2.isEmpty = false

namespace PackageSpec

@[ext] theorem ext {a b : PackageSpec} (hname : a.name = b.name) (hversion : a.version = b.version)
    (hruntime : a.runtime = b.runtime) (hplatforms : a.platforms = b.platforms)
    (hdependencies : a.dependencies = b.dependencies) (hextras : a.extras = b.extras)
    (hprerelease : a.prerelease = b.prerelease) : a = b := by
  cases a; cases b
  cases hname; cases hversion; cases hruntime; cases hplatforms; cases hdependencies
  cases hextras; cases hprerelease
  rfl

instance : DecidableEq PackageSpec := fun a b =>
  decidable_of_iff
    ((a.name = b.name ∧ a.version = b.version ∧ a.runtime = b.runtime) ∧
      (a.platforms = b.platforms ∧ a.dependencies = b.dependencies) ∧
      a.extras = b.extras ∧ a.prerelease = b.prerelease)
    ⟨fun h => by ext1 <;> simp [h], fun h => by simp [h]⟩

/-- The spec of a package that runs everywhere and depends on nothing. -/
def new (name : String) (version : Version) : PackageSpec where
  name := PackageName.of name
  version
  runtime := Constraint.any
  platforms := SortedMap.empty
  dependencies := SortedMap.empty
  extras := SortedMap.empty
  prerelease := version.isPrerelease
  extras_nonempty := by simp [SortedMap.empty]

/-- The spec with other runtime versions. -/
def withRuntime (s : PackageSpec) (runtime : Constraint) : PackageSpec := { s with runtime }

/-- The spec with more supported platforms. -/
def withPlatforms (s : PackageSpec) (platforms : List String) : PackageSpec :=
  { s with platforms := platforms.foldl (fun ps p => ps.add (Platform.of p)) s.platforms }

/-- The spec with a required dependency. -/
def withDependency (s : PackageSpec) (name : String) (constraint : Constraint) : PackageSpec :=
  { s with dependencies := s.dependencies.insert (PackageName.of name) constraint }

/-- The spec with a dependency in one of its groups. -/
def withOptionalDependency (s : PackageSpec) (extra name : String) (constraint : Constraint) :
    PackageSpec :=
  let group := PackageName.of extra
  let deps := ((s.extras.get? group).getD SortedMap.empty).insert (PackageName.of name) constraint
  { s with
    extras := s.extras.insert group deps
    extras_nonempty := fun e he => by
      rcases SortedMap.mem_insertEntry_value he with h | h
      · rw [h]; exact SortedMap.isEmpty_insert _ _ _
      · exact s.extras_nonempty e h }

/-- The spec with another prerelease flag than its version gives it. -/
def withPrerelease (s : PackageSpec) (prerelease : Bool) : PackageSpec := { s with prerelease }

/-- The dependencies of one group, if the package declares it. -/
def extra (s : PackageSpec) (spelling : String) : Option Dependencies :=
  s.extras.get? (PackageName.of spelling)

/-- How a version of a package is called in messages. -/
def idOf (name : String) (version : Version) : String := name ++ "@" ++ version.render

/-- The name and the version of a spec. -/
def id (s : PackageSpec) : String := idOf s.name.text s.version

end PackageSpec

end Depsolve
