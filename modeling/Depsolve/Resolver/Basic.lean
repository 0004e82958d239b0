import Depsolve.Selection

/-!
A resolver: a registry and the environment that packages are chosen for.
-/

namespace Depsolve

/-- The registry to choose from and the environment to choose for. -/
structure Resolver where
  registry : Registry
  context : Context

namespace Resolver

/-- The resolver over the empty registry. -/
def new (context : Context) : Resolver := ⟨Registry.empty, context⟩

/-- The resolver with one more available version. -/
def register (r : Resolver) (s : PackageSpec) : Resolver :=
  { r with registry := (r.registry.add s).1 }

/-- The resolver with an installed version. -/
def registerInstalled (r : Resolver) (s : PackageSpec) : Resolver :=
  { r with registry := (r.registry.install s).1 }

/-- The choice among the versions of a package. -/
def selector (r : Resolver) (name : PackageName) : Selector :=
  ⟨r.registry.versionsOf name, r.context⟩

/-- The versions of a package that can be used under a constraint, newest first. -/
def compatible (r : Resolver) (name : String) (constraint : Constraint) : List PackageSpec :=
  (r.selector (PackageName.of name)).compatible constraint

/-- The spec to choose for a package under a constraint. -/
def choose (r : Resolver) (name : PackageName) (constraint : Constraint) :
    Except SelectionFailure PackageSpec :=
  (r.selector name).select constraint ((r.registry.installedOf name).map (·.version))

/-- Only a package of the registry is chosen. -/
theorem mem_keys_of_choose {r : Resolver} {name : PackageName} {constraint : Constraint}
    {spec : PackageSpec} (h : r.choose name constraint = .ok spec) :
    name ∈ r.registry.available.keys := by
  obtain ⟨vs, hvs⟩ := Option.isSome_iff_exists.mp (Selector.available_of_select h)
  exact SortedMap.mem_keys_of_get? hvs

end Resolver

end Depsolve
