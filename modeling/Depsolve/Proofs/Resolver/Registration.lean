import Depsolve.Proofs.Resolver.Stable

/-!
The order in which packages become known does not matter.

* `select_congr`: a selection reads the specs and the environment only, not the spellings of the
  versions under which the specs are listed.
* `resolve_congr`: a resolution reads the registry through its choices only.
* `registration_order_irrelevant`: where no two specs of a name have equal versions, and no package
  is installed twice, the calls that register them may come in any order.
-/

namespace Depsolve

/-- A selection reads the specs and the environment only. -/
theorem Selector.select_congr {s s' : Selector} (hspecs : s.specs = s'.specs)
    (hcontext : s.context = s'.context) (constraint : Constraint) (installed : Option Version) :
    s.compatible constraint = s'.compatible constraint ∧
      s.select constraint installed = s'.select constraint installed := by
  have haccepts : s.accepts = s'.accepts := by
    funext constraint spec
    rw [accepts, accepts, hcontext]
  have hcompatible : s.compatible constraint = s'.compatible constraint := by
    rw [compatible, compatible, hspecs, haccepts]
  refine ⟨hcompatible, ?_⟩
  simp only [select, preferred, explain, hcompatible, hspecs, hcontext]

namespace Resolver

variable {r r' : Resolver}

/-! ### Registries with the same answers -/

/-- The specs of a package are listed alike where the registries answer alike. -/
theorem specs_selector_congr (h : r.registry.Alike r'.registry) (name : PackageName) :
    (r.selector name).specs = (r'.selector name).specs := by
  have hvalues : ∀ r : Resolver, (r.selector name).specs =
      ((r.registry.versionsOf name).getD SortedMap.empty).values := by
    intro r
    simp only [selector, Selector.specs]
    cases r.registry.versionsOf name with
    | none => rfl
    | some vs => rfl
  rw [hvalues, hvalues]
  refine SortedMap.values_eq_of_get? fun v => ?_
  rw [Registry.get?_getD_versionsOf, Registry.get?_getD_versionsOf, h.get? name v]

/-- Registries that answer alike have the same candidates and choices to offer. -/
theorem choose_congr (hcontext : r.context = r'.context) (h : r.registry.Alike r'.registry)
    (name : PackageName) (constraint : Constraint) :
    (r.selector name).compatible constraint = (r'.selector name).compatible constraint ∧
      r.choose name constraint = r'.choose name constraint := by
  rw [choose, choose, h.installedOf name]
  exact Selector.select_congr (specs_selector_congr h name) hcontext constraint _

/-! ### Resolvers with the same choices -/

/-- A task is entered alike where the choices for it are the same. -/
theorem enter_congr (hcontext : r.context = r'.context)
    (hchoose : ∀ name constraint, r.choose name constraint = r'.choose name constraint)
    (s : Session) (t : Task) : r.enter s t = r'.enter s t := by
  rw [enter, enter, hchoose, hcontext]

theorem step_congr (hcontext : r.context = r'.context)
    (hchoose : ∀ name constraint, r.choose name constraint = r'.choose name constraint)
    (s : Session) : r.step s = r'.step s := by
  unfold step
  split
  · rfl
  · exact enter_congr hcontext hchoose _ _
  · rfl

theorem run_congr (hcontext : r.context = r'.context)
    (hchoose : ∀ name constraint, r.choose name constraint = r'.choose name constraint)
    (s : Session) : r.run s = r'.run s := by
  fun_induction run r s with
  | case1 s hnil => exact (run_of_nil (by simpa using hnil)).symm
  | case2 s hne ih =>
    rw [ih, step_congr hcontext hchoose, ← run_step (by simpa using hne)]

/-- A resolution reads the registry through its choices only. -/
theorem resolve_congr (hcontext : r.context = r'.context)
    (hchoose : ∀ name constraint, r.choose name constraint = r'.choose name constraint)
    (roots : List Requirement) : r.resolve roots = r'.resolve roots := by
  have hroot : r.resolveRoot = r'.resolveRoot :=
    funext fun s => funext fun root => run_congr hcontext hchoose _
  rw [resolve, resolve, hroot]

/-- Resolvers whose registries answer alike come to the same answers. -/
theorem same_of_alike (hcontext : r.context = r'.context) (h : r.registry.Alike r'.registry) :
    (∀ roots, r.resolve roots = r'.resolve roots) ∧
      ∀ name constraint, r.compatible name constraint = r'.compatible name constraint := by
  constructor
  · exact resolve_congr hcontext fun name constraint =>
      (choose_congr hcontext h name constraint).2
  · intro name constraint
    exact (choose_congr hcontext h (PackageName.of name) constraint).1

/-! ### Calls in any order -/

/-- Where no two specs of a name have equal versions and no package is installed twice, every
order of the calls that register the specs, added and installed ones mixed, leads to the same
resolutions and to the same compatible versions. A spec may be installed beside an added one of
the same version that says something else. -/
theorem registration_order_irrelevant (context : Context) {specs installed : List PackageSpec}
    (hspecs : specs.Pairwise fun s t => s.name = t.name → compare s.version t.version ≠ .eq)
    (hinstalled : installed.Pairwise fun s t => s.name ≠ t.name)
    {calls calls' : List Registry.Call}
    (hcalls : calls.Perm (specs.map .add ++ installed.map .install))
    (hcalls' : calls'.Perm (specs.map .add ++ installed.map .install)) :
    (∀ roots, ((new context).after calls).resolve roots =
      ((new context).after calls').resolve roots) ∧
    ∀ name constraint, ((new context).after calls).compatible name constraint =
      ((new context).after calls').compatible name constraint := by
  have hapart : calls.Pairwise Registry.Call.Apart :=
    hcalls.symm.pairwise (Registry.pairwise_apart hspecs hinstalled)
      fun {_ _} => Registry.Call.Apart.symm
  have halike : (Registry.empty.fill calls).Alike (Registry.empty.fill calls') :=
    Registry.alike_of_perm (hcalls.trans hcalls'.symm) hapart
  rw [after_eq, after_eq]
  exact same_of_alike rfl halike

/-- The second version of the library as a build that was installed by hand: it is taken for a
prerelease, which the added spec of the same version is not. -/
def localLib : PackageSpec := (lib 2).withPrerelease true

/-- The added spec is the one to choose, whether the build is installed before it or after it. -/
theorem registration_order_irrelevant_localLib :
    [app, lib 1, lib 2].Pairwise
        (fun s t => s.name = t.name → compare s.version t.version ≠ .eq) ∧
      localLib.name = (lib 2).name ∧ compare localLib.version (lib 2).version = .eq ∧
      ((new Context.default).after
          [.install localLib, .add (lib 2), .add (lib 1), .add app]).resolve
            [Requirement.new "app" Constraint.any] =
        ((new Context.default).after
          [.add app, .add (lib 1), .add (lib 2), .install localLib]).resolve
            [Requirement.new "app" Constraint.any] ∧
      ((new Context.default).after
          [.install localLib, .add (lib 2), .add (lib 1), .add app]).compatible "lib"
            Constraint.any =
        ((new Context.default).after
          [.add app, .add (lib 1), .add (lib 2), .install localLib]).compatible "lib"
            Constraint.any := by
  have hspecs : [app, lib 1, lib 2].Pairwise fun s t =>
      s.name = t.name → compare s.version t.version ≠ .eq := by decide +kernel
  have hsame := registration_order_irrelevant Context.default hspecs
    (List.pairwise_singleton _ localLib) (List.reverse_perm _) (List.Perm.refl _)
  exact ⟨hspecs, rfl, Std.ReflOrd.compare_self, hsame.1 _, hsame.2 _ _⟩

example :
    ((new Context.default).after [.install localLib, .add (lib 2), .add (lib 1)]).compatible
      "lib" Constraint.any = [lib 2, lib 1] := by cbv

end Resolver

end Depsolve
