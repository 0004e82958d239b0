import Depsolve.Proofs.Registry
import Depsolve.Proofs.Resolver.Cycles

/-!
No conflict is made up: each goes back to a request that was made, and the reason that its
kind gives is true of the registry and of the answer.

* `Requested` are the requests of a resolution: those of the roots and the dependencies in
  force of the chosen packages.
* `Grounded` says for each kind of conflict what has to be true for a request to end in it.
* `Warranted` is the invariant. A conflict is reported while a task is entered, so its request
  is that of the task; a failed selection passes on the reason that `Selector.Explained` gives.
* `every_conflict_grounded` reads the answer off the invariant.
-/

namespace Depsolve

variable {r : Resolver} {roots : List Requirement} {s s' : Session} {t : Task}
  {resolved resolved' : InsertionMap String PackageSpec} {name : PackageName}
  {constraint : Constraint} {kind : ConflictKind}

/-! ### What the registry offers -/

/-- A registered spec satisfies the constraint, and the prerelease policy lets it pass. -/
structure Resolver.Allows (r : Resolver) (name : PackageName) (constraint : Constraint)
    (spec : PackageSpec) : Prop where
  known : r.registry.Knows name spec
  holds : constraint.holds spec.version = true
  prerelease : spec.fitsPrerelease r.context = true

theorem Resolver.mem_allowed_selector {spec : PackageSpec} :
    spec ∈ (r.selector name).allowed constraint ↔ r.Allows name constraint spec := by
  rw [Selector.mem_allowed, mem_specs_selector]
  exact ⟨fun ⟨hknown, hholds, hprerelease⟩ => ⟨hknown, hholds, hprerelease⟩,
    fun ⟨hknown, hholds, hprerelease⟩ => ⟨hknown, hholds, hprerelease⟩⟩

/-! ### Requests and reasons -/

/-- A package is asked for under a constraint: by a root, or as a dependency in force of a
chosen package. -/
inductive Requested (roots : List Requirement) (resolved : InsertionMap String PackageSpec)
    (name : PackageName) (constraint : Constraint) : Prop where
  | root {root : Requirement} (hroot : root ∈ roots) (hname : PackageName.of root.name = name)
      (hconstraint : root.constraint = constraint)
  | dependency {parent : String} {spec : PackageSpec} (hparent : resolved.get? parent = some spec)
      (hforce : InForce roots parent spec (name, constraint))

theorem Requested.mono (h : Requested roots resolved name constraint) {more : List Requirement}
    (hsub : ∀ q ∈ roots, q ∈ more)
    (hkept : ∀ name spec, resolved.get? name = some spec → resolved'.get? name = some spec) :
    Requested more resolved' name constraint := by
  cases h with
  | root hroot hname hconstraint => exact .root (hsub _ hroot) hname hconstraint
  | dependency hparent hforce => exact .dependency (hkept _ _ hparent) (hforce.mono hsub)

/-- Every task that is declared stands for a request. -/
theorem Task.Declared.requested (h : t.Declared roots resolved) :
    Requested roots resolved t.name t.constraint := by
  cases h with
  | root hroot htask =>
    subst htask
    exact .root hroot rfl rfl
  | child _ hresolved hforce => exact .dependency hresolved hforce

/-- What has to be true of a request for a conflict of some kind to be about it. A circular
conflict says nothing about versions. -/
inductive Grounded (r : Resolver) (resolved : InsertionMap String PackageSpec)
    (name : PackageName) (constraint : Constraint) : ConflictKind → Prop where
  | circular : Grounded r resolved name constraint .circular
  | missing (hunknown : ∀ spec, ¬ r.registry.Knows name spec) :
      Grounded r resolved name constraint .missing
  | disagreement {spec : PackageSpec} (hresolved : resolved.get? name.text = some spec)
      (hholds : constraint.holds spec.version = false) :
      Grounded r resolved name constraint .version
  | unsatisfiable (hknown : ∃ spec, r.registry.Knows name spec)
      (hnone : ∀ spec, ¬ r.Allows name constraint spec) :
      Grounded r resolved name constraint .version
  | runtime (hallowed : ∃ spec, r.Allows name constraint spec)
      (hruntime : ∀ spec, r.Allows name constraint spec → spec.fitsRuntime r.context = false) :
      Grounded r resolved name constraint .runtime
  | platform
      (hruntime : ∃ spec, r.Allows name constraint spec ∧ spec.fitsRuntime r.context = true)
      (hplatform : ∀ spec, r.Allows name constraint spec → spec.fitsRuntime r.context = true →
        spec.fitsPlatform r.context = false) :
      Grounded r resolved name constraint .platform

theorem Grounded.mono (h : Grounded r resolved name constraint kind)
    (hkept : ∀ name spec, resolved.get? name = some spec → resolved'.get? name = some spec) :
    Grounded r resolved' name constraint kind := by
  cases h with
  | circular => exact .circular
  | missing hunknown => exact .missing hunknown
  | disagreement hresolved hholds => exact .disagreement (hkept _ _ hresolved) hholds
  | unsatisfiable hknown hnone => exact .unsatisfiable hknown hnone
  | runtime hallowed hruntime => exact .runtime hallowed hruntime
  | platform hruntime hplatform => exact .platform hruntime hplatform

/-- A failed selection is reported with the kind of conflict that its reason calls for. -/
theorem grounded_failure {f : SelectionFailure} (h : r.choose t.name t.constraint = .error f) :
    Grounded r resolved t.name t.constraint (s.failure r.context t f).kind := by
  have hexplained : (r.selector t.name).Explained t.constraint f :=
    Selector.explained_of_select_error h
  cases hexplained with
  | notFound hspecs =>
    refine .missing fun spec hknown => ?_
    have hmem := Resolver.mem_specs_selector.mpr hknown
    rw [hspecs] at hmem
    cases hmem
  | unsatisfiable hspecs hsatisfying =>
    refine .unsatisfiable ?_ fun spec hallows => ?_
    · obtain ⟨spec, hspec⟩ := List.exists_mem_of_ne_nil _ hspecs
      exact ⟨spec, Resolver.mem_specs_selector.mp hspec⟩
    · have hmem := Resolver.mem_allowed_selector.mpr hallows
      rw [Selector.allowed, hsatisfying] at hmem
      cases hmem
  | prereleaseOnly hsatisfying hallowed =>
    refine .unsatisfiable ?_ fun spec hallows => ?_
    · obtain ⟨spec, hspec⟩ := List.exists_mem_of_ne_nil _ hsatisfying
      exact ⟨spec, Resolver.mem_specs_selector.mp (List.mem_of_mem_filter hspec)⟩
    · have hmem := Resolver.mem_allowed_selector.mpr hallows
      rw [hallowed] at hmem
      cases hmem
  | runtimeIncompatible hallowed hruntime =>
    refine .runtime ?_ fun spec hallows => ?_
    · obtain ⟨spec, hspec⟩ := List.exists_mem_of_ne_nil _ hallowed
      exact ⟨spec, Resolver.mem_allowed_selector.mp hspec⟩
    · exact hruntime spec (Resolver.mem_allowed_selector.mpr hallows)
  | platformIncompatible hruntime hplatform =>
    refine .platform ?_ fun spec hallows hfits => ?_
    · obtain ⟨spec, hspec, hfits⟩ := hruntime
      exact ⟨spec, Resolver.mem_allowed_selector.mp hspec, hfits⟩
    · exact hplatform spec (Resolver.mem_allowed_selector.mpr hallows) hfits

/-! ### The invariant -/

/-- A conflict that entering a task adds is about the task, for the reason that it gives. -/
theorem Session.Entering.conflict_cases (h : s.Entering t) (henters : r.Enters s t s')
    {c : Conflict} (hc : c ∈ s'.conflicts) :
    c ∈ s.conflicts ∨
      (c.package = t.name.text ∧ Grounded r s'.resolved t.name t.constraint c.kind) := by
  have hcloses : ∀ {u : Session}, u.Closes t c →
      c.package = t.name.text ∧ Grounded r s'.resolved t.name t.constraint c.kind := by
    rintro u ⟨_, chain, _, _, rfl⟩
    exact ⟨Conflict.package_cycle chain _, .circular⟩
  cases henters with
  | cycle =>
    refine (List.mem_append.mp hc).imp_right fun hnew => ?_
    rw [List.mem_singleton.mp hnew]
    exact ⟨Conflict.package_cycle _ _, .circular⟩
  | disagree _ hresolved hholds =>
    refine (List.mem_append.mp hc).imp_right fun hnew => ?_
    rw [List.mem_singleton.mp hnew]
    exact ⟨rfl, .disagreement hresolved hholds⟩
  | fail _ _ hchoose =>
    refine (List.mem_append.mp hc).imp_right fun hnew => ?_
    rw [List.mem_singleton.mp hnew]
    exact ⟨s.package_failure _ _ _, grounded_failure hchoose⟩
  | reuse _ hresolved => exact ((h.records hresolved).conflict_cases hc).imp_right hcloses
  | reopen _ hresolved => exact ((h.records hresolved).conflict_cases hc).imp_right hcloses
  | @accept spec => exact ((h.records_chosen spec).conflict_cases hc).imp_right hcloses

/-- Every conflict so far has a request that ended in it. -/
def Warranted (r : Resolver) (roots : List Requirement) (s : Session) : Prop :=
  ∀ c ∈ s.conflicts, ∃ name constraint, c.package = name.text ∧
    Requested roots s.resolved name constraint ∧
    Grounded r s.resolved name constraint c.kind

theorem Warranted.enter (h : Warranted r roots s) (hreached : r.Reached roots s)
    {rest : List Frame} (hstack : s.stack = .enter t :: rest) :
    Warranted r roots (r.enter { s with stack := rest } t) := by
  have hdeclared : t.Declared roots s.resolved := hreached.genuine.tasks t (by simp [hstack])
  have hentering := hreached.coherent.entering hstack
  have henters := r.enters { s with stack := rest } t
  generalize r.enter { s with stack := rest } t = s' at henters ⊢
  have hkept := henters.grows.resolved
  intro c hc
  rcases hentering.conflict_cases henters hc with hold | ⟨hpackage, hgrounded⟩
  · obtain ⟨name, constraint, hpackage, hrequested, hgrounded⟩ := h c hold
    exact ⟨name, constraint, hpackage, hrequested.mono (fun _ => id) hkept,
      hgrounded.mono hkept⟩
  · exact ⟨t.name, t.constraint, hpackage, hdeclared.requested.mono (fun _ => id) hkept,
      hgrounded⟩

/-- No state of a resolution holds a conflict without a request that ended in it. -/
theorem Resolver.Reached.warranted (h : r.Reached roots s) : Warranted r roots s := by
  refine h.invariant (P := Warranted r) (fun _ hc => absurd hc List.not_mem_nil) ?_ ?_ ?_
  · intro _ _ root _ hwarranted c hc
    obtain ⟨name, constraint, hpackage, hrequested, hgrounded⟩ := hwarranted c hc
    exact ⟨name, constraint, hpackage,
      hrequested.mono (fun _ => List.mem_append_left _) (fun _ _ => id), hgrounded⟩
  · intro _ _ _ _ hreached hstack hwarranted
    exact hwarranted.enter hreached hstack
  · intro _ _ _ _ _ hwarranted
    exact hwarranted

/-! ### The answer of a resolution -/

/-- For every conflict of the answer its package was asked for under some constraint, and what
the kind of the conflict says about that request is true. -/
theorem every_conflict_grounded (r : Resolver) (roots : List Requirement) :
    ∀ c ∈ (r.resolve roots).conflicts, ∃ name constraint, c.package = name.text ∧
      Requested roots (r.resolve roots).resolved name constraint ∧
      Grounded r (r.resolve roots).resolved name constraint c.kind := by
  rw [r.conflicts_resolve, r.resolved_resolve]
  exact (r.reached_afterRoots roots).1.warranted

/-- A resolver for a runtime that the only version of a dependency has given up. -/
def Resolver.withOldRuntime : Resolver :=
  ((Resolver.new (Context.default.withRuntime (Version.release 3 9 0))).register
    ((PackageSpec.new "app" (Version.release 1 0 0)).withDependency "lib" Constraint.any)).register
    ((PackageSpec.new "lib" (Version.release 2 0 0)).withRuntime
      ⟨[⟨.greaterEq, ⟨4, some 0, none, none⟩⟩]⟩)

/-- The conflict over the dependency of an old runtime has its request and its reason. -/
theorem conflict_grounded_withOldRuntime :
    ∃ c ∈ (Resolver.withOldRuntime.resolve [Requirement.new "app" Constraint.any]).conflicts,
      c.kind = .runtime ∧ ∃ name constraint, c.package = name.text ∧
        Requested [Requirement.new "app" Constraint.any]
          (Resolver.withOldRuntime.resolve [Requirement.new "app" Constraint.any]).resolved name
          constraint ∧
        Grounded Resolver.withOldRuntime
          (Resolver.withOldRuntime.resolve [Requirement.new "app" Constraint.any]).resolved name
          constraint c.kind := by
  -- the application is entered, no version of the library will do, and the application is left
  have hsteps : Resolver.withOldRuntime.afterRoots [Requirement.new "app" Constraint.any] =
      Resolver.withOldRuntime.step^[3] { Session.start with
        stack := [.enter (Task.root (Requirement.new "app" Constraint.any))] } :=
    Resolver.run_eq_iterate rfl
  have hkinds : (Resolver.withOldRuntime.resolve
      [Requirement.new "app" Constraint.any]).conflicts.map (·.kind) = [.runtime] := by
    rw [Resolver.conflicts_resolve, hsteps]
    rfl
  have hmem : ConflictKind.runtime ∈ (Resolver.withOldRuntime.resolve
      [Requirement.new "app" Constraint.any]).conflicts.map (·.kind) := by simp [hkinds]
  obtain ⟨c, hc, hkind⟩ := List.mem_map.mp hmem
  exact ⟨c, hc, hkind, every_conflict_grounded _ _ c hc⟩

end Depsolve
