import Depsolve.Context
import Depsolve.Registry

/-!
Selection of one version of a package: the newest that satisfies the constraint and fits
the environment, or the installed one where that is preferred. When nothing is left,
`explain` tells which filter let nothing pass.
-/

namespace Depsolve

/-- Why no version is left. -/
inductive SelectionFailure where
  /-- The package has no version. -/
  | notFound
  /-- No version satisfies the constraint. -/
  | unsatisfiable (available : List Version)
  /-- Only prereleases satisfy the constraint, and they are refused. -/
  | prereleaseOnly (prereleases : List Version)
  /-- No version that is left works with the target runtime. -/
  | runtimeIncompatible (rejected : List Version)
  /-- No version that is left supports the target platform. -/
  | platformIncompatible (rejected : List Version)
  deriving DecidableEq

/-- The known versions of one package, none if its name is unknown, and the environment
to choose for. -/
structure Selector where
  available : Option Versions
  context : Context

namespace Selector

/-- The known specs, in ascending order of the versions they are listed under. -/
def specs (s : Selector) : List PackageSpec :=
  match s.available with
  | some vs => vs.values
  | none => []

/-- Whether a spec passes every filter. -/
def accepts (s : Selector) (constraint : Constraint) (spec : PackageSpec) : Bool :=
  constraint.holds spec.version && spec.fitsRuntime s.context && spec.fitsPlatform s.context
    && spec.fitsPrerelease s.context

/-- The specs that pass every filter, newest first. -/
def compatible (s : Selector) (constraint : Constraint) : List PackageSpec :=
  s.specs.reverse.filter (s.accepts constraint)

/-- Why no spec passes: the first filter that leaves nothing. -/
def explain (s : Selector) (constraint : Constraint) : SelectionFailure :=
  if s.specs.isEmpty then .notFound
  else
    let satisfying := s.specs.filter fun spec => constraint.holds spec.version
    if satisfying.isEmpty then .unsatisfiable (s.specs.map (·.version))
    else
      let allowed := satisfying.filter (·.fitsPrerelease s.context)
      if allowed.isEmpty then .prereleaseOnly (satisfying.map (·.version))
      else if !allowed.any (·.fitsRuntime s.context) then
        .runtimeIncompatible (allowed.map (·.version))
      else .platformIncompatible (allowed.map (·.version))

/-- The candidate to stay with: the installed version, if that is preferred and passes. -/
def preferred (s : Selector) (candidates : List PackageSpec) (installed : Option Version) :
    Option PackageSpec :=
  match installed with
  | some v => if s.context.preferInstalled then candidates.find? (·.version = v) else none
  | none => none

/-- The spec to install. -/
def select (s : Selector) (constraint : Constraint) (installed : Option Version) :
    Except SelectionFailure PackageSpec :=
  let candidates := s.compatible constraint
  match s.preferred candidates installed <|> candidates.head? with
  | some spec => .ok spec
  | none => .error (s.explain constraint)

/-- Only a known package has a spec to install. -/
theorem available_of_select {s : Selector} {constraint : Constraint}
    {installed : Option Version} {spec : PackageSpec}
    (h : s.select constraint installed = .ok spec) : s.available.isSome := by
  cases hav : s.available with
  | some _ => rfl
  | none =>
    have hspecs : s.specs = [] := by simp [specs, hav]
    have hcompatible : s.compatible constraint = [] := by simp [compatible, hspecs]
    have hpreferred : s.preferred [] installed = none := by
      unfold preferred
      split
      · split <;> rfl
      · rfl
    simp [select, hcompatible, hpreferred] at h

/-- The highest known version. -/
def highest? (s : Selector) : Option Version := s.specs.getLast?.map (·.version)

/-- The lowest known version. -/
def lowest? (s : Selector) : Option Version := s.specs.head?.map (·.version)

/-- Whether any spec passes every filter. -/
def hasMatching (s : Selector) (constraint : Constraint) : Bool :=
  !(s.compatible constraint).isEmpty

end Selector

end Depsolve
