import Depsolve.Proofs.Registry.History
import Depsolve.Proofs.Resolver.Accounted

/-!
What was installed stays: a resolution without conflicts is found again after its choices were
installed, whatever versions became known in the meantime.

* `Follows`: one resolver makes the choices of another as far as they ended up in an answer.
* `step_of_follows`, `run_of_follows` and `resolveRoots_of_follows`: then both go through the
  same states, as long as the other comes to no conflict. The answer is fixed from the start
  and what a state holds is never taken back, so every choice on the way is in the answer.
* `choose_after`: a resolver that prefers what is installed makes the choices that were
  installed, since installing replaces no known version and no other version is equal to it.
-/

namespace Depsolve

variable {r r' : Resolver} {roots : List Requirement} {s last : Session} {name : PackageName}
  {constraint : Constraint} {spec : PackageSpec} {more : List Registry.Call}

/-! ### Two resolvers in the same states -/

/-- One resolver makes every choice of another that ended up in an answer. -/
def Resolver.Follows (r' r : Resolver) (resolved : InsertionMap String PackageSpec) : Prop :=
  ∀ (name : PackageName) constraint spec, r.choose name constraint = .ok spec →
    resolved.get? name.text = some spec → r'.choose name constraint = .ok spec

namespace Resolver

/-- A task is entered alike where the choice for it is in the answer and no conflict is. -/
theorem enter_of_follows {t : Task} (hfollows : r'.Follows r last.resolved)
    (hclean : last.conflicts = []) (hgrows : (r.enter s t).Grows last) :
    r'.enter s t = r.enter s t := by
  have henters := r.enters s t
  generalize hs' : r.enter s t = s' at henters hgrows ⊢
  cases henters with
  | cycle hpath => rw [enter, if_pos hpath]
  | disagree hpath hresolved =>
    rw [← hs', enter, enter, if_neg hpath, if_neg hpath, hresolved]
  | reuse hpath hresolved =>
    rw [← hs', enter, enter, if_neg hpath, if_neg hpath, hresolved]
  | reopen hpath hresolved =>
    rw [← hs', enter, enter, if_neg hpath, if_neg hpath, hresolved]
  | fail =>
    have hreported := hgrows.conflicts _ (List.mem_append_right _ (List.mem_singleton_self _))
    rw [hclean] at hreported
    cases hreported
  | @accept spec hpath hresolved hchoose =>
    have hchosen : last.resolved.get? t.name.text = some spec := by
      refine hgrows.resolved _ _ ?_
      rw [Session.resolved_descend, Session.resolved_recordEdge, Session.chosen,
        InsertionMap.get?_insert, if_pos rfl]
    rw [← hs', enter, enter, if_neg hpath, if_neg hpath, hresolved, hchoose,
      hfollows t.name t.constraint spec hchoose hchosen]

theorem step_of_follows (hfollows : r'.Follows r last.resolved) (hclean : last.conflicts = [])
    (hgrows : (r.step s).Grows last) : r'.step s = r.step s := by
  unfold step at hgrows ⊢
  split
  · rfl
  · rename_i hstack
    rw [hstack] at hgrows
    exact enter_of_follows hfollows hclean hgrows
  · rfl

theorem run_of_follows (hfollows : r'.Follows r last.resolved) (hclean : last.conflicts = [])
    (hgrows : (r.run s).Grows last) : r'.run s = r.run s := by
  fun_induction run r s with
  | case1 s hnil => exact run_of_nil (by simpa using hnil)
  | case2 s hne ih =>
    have hstep : r'.step s = r.step s :=
      step_of_follows hfollows hclean ((r.grows_run _).trans hgrows)
    rw [run_step (by simpa using hne), hstep, ih hgrows]

theorem resolveRoots_of_follows (hfollows : r'.Follows r last.resolved)
    (hclean : last.conflicts = []) (hgrows : (roots.foldl r.resolveRoot s).Grows last) :
    roots.foldl r'.resolveRoot s = roots.foldl r.resolveRoot s := by
  induction roots generalizing s with
  | nil => rfl
  | cons root roots ih =>
    have hroot : r'.resolveRoot s root = r.resolveRoot s root :=
      run_of_follows hfollows hclean ((r.grows_resolveRoots roots _).trans hgrows)
    rw [List.foldl_cons, List.foldl_cons, hroot, ih hgrows]

/-- Who makes all choices of an answer without conflicts comes to the same answer. -/
theorem resolve_of_follows (hfollows : r'.Follows r (r.resolve roots).resolved)
    (hsuccess : (r.resolve roots).isSuccessful = true) : r'.resolve roots = r.resolve roots := by
  rw [r.resolved_resolve] at hfollows
  have hclean : (r.afterRoots roots).conflicts = [] := by
    rw [← r.conflicts_resolve]
    exact List.isEmpty_iff.mp hsuccess
  exact congrArg Session.finish
    (resolveRoots_of_follows hfollows hclean (.refl (r.afterRoots roots)))

/-! ### Choices that were installed -/

/-- The resolver that stays with installed versions where it can. -/
def preferringInstalled (r : Resolver) : Resolver :=
  { r with context := { r.context with preferInstalled := true } }

/-- A choice that was installed is made again. -/
theorem choose_after (hindexed : r.registry.Indexed)
    (hfresh : ∀ s, .add s ∈ more → r.registry.get? s.name.text s.version = none)
    (hinstalled : (r.after more).registry.installedOf name = some spec)
    (hchoose : r.choose name constraint = .ok spec) :
    (r.after more).preferringInstalled.choose name constraint = .ok spec := by
  obtain ⟨hspec, haccepts⟩ := Selector.mem_compatible.mp (mem_compatible_of_choose hchoose)
  rw [after_eq] at hinstalled ⊢
  have hindexed' : (r.registry.fill more).Indexed := hindexed.fill more
  have hknown : (r.registry.fill more).Knows name spec :=
    Registry.knows_of_get? (Registry.get?_fill_of_fresh hfresh
      (hindexed.get?_of_knows (mem_specs_selector.mp hspec)))
  rw [choose, preferringInstalled, hinstalled]
  refine Selector.select_of_preferred rfl ?_ fun other hother hversion => ?_
  · -- the filters of the two environments are the same, the preference is none of them
    exact Selector.mem_compatible.mpr ⟨mem_specs_selector.mpr hknown, haccepts⟩
  · exact hindexed'.eq_of_knows (mem_specs_selector.mp hother) hknown hversion

/-- A resolution without conflicts is found again, with the same choices in the same order and
the same order of installation, after its specs were installed and further versions became
known, as long as none of these is equal to a version that was known before. -/
theorem resolve_preferringInstalled (context : Context) (calls more : List Registry.Call)
    (roots : List Requirement)
    (hsuccess : (((new context).after calls).resolve roots).isSuccessful = true)
    (hinstalled : ∀ s, .install s ∈ more ↔
      ∃ name, (((new context).after calls).resolve roots).resolved.get? name = some s)
    (hfresh : ∀ s, .add s ∈ more →
      ((new context).after calls).registry.get? s.name.text s.version = none) :
    (((new context).after calls).after more).preferringInstalled.resolve roots =
      ((new context).after calls).resolve roots := by
  have hindexed := indexed_after context calls
  generalize (new context).after calls = r at hsuccess hinstalled hfresh hindexed ⊢
  refine resolve_of_follows (fun name constraint spec hchoose hspec => ?_) hsuccess
  obtain rfl : spec.name = name := PackageName.ext (name_of_resolved hindexed hspec)
  refine choose_after hindexed hfresh ?_ hchoose
  rw [after_eq]
  refine Registry.installedOf_fill ((hinstalled spec).mpr ⟨_, hspec⟩) fun s hs hsame => ?_
  -- one name has one spec in the answer
  obtain ⟨n, hn⟩ := (hinstalled s).mp hs
  obtain rfl := name_of_resolved hindexed hn
  rw [hsame, hspec] at hn
  exact (Option.some.inj hn).symm

/-- An application that depends on any version of a library. -/
def app : PackageSpec :=
  (PackageSpec.new "app" (Version.release 1 0 0)).withDependency "lib" Constraint.any

/-- A version of the library. -/
def lib (major : UInt64) : PackageSpec := PackageSpec.new "lib" (Version.release major 0 0)

/-- The library stays at its first version after the second became known. -/
theorem resolve_preferringInstalled_lib :
    ((((new Context.default).after [.add app, .add (lib 1)]).after
      [.install app, .install (lib 1), .add (lib 2)]).preferringInstalled.resolve
        [Requirement.new "app" Constraint.any]) =
      ((new Context.default).after [.add app, .add (lib 1)]).resolve
        [Requirement.new "app" Constraint.any] := by
  have hsuccess : (((new Context.default).after [.add app, .add (lib 1)]).resolve
      [Requirement.new "app" Constraint.any]).isSuccessful = true := by cbv
  have hresolved : (((new Context.default).after [.add app, .add (lib 1)]).resolve
      [Requirement.new "app" Constraint.any]).resolved.entries =
        [("app", app), ("lib", lib 1)] := by cbv
  have hunknown : ((new Context.default).after [.add app, .add (lib 1)]).registry.get? "lib"
      (Version.release 2 0 0) = none := by decide +kernel
  refine resolve_preferringInstalled _ _ _ _ hsuccess (fun s => ?_) fun s hs => ?_
  · simp only [InsertionMap.get?_eq_some_iff, hresolved]
    simp [exists_or]
  · obtain rfl : s = lib 2 := by simpa using hs
    exact hunknown

end Resolver

end Depsolve
