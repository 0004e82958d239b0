import Depsolve.Proofs.LockFile.RoundTrip
import Depsolve.Proofs.Registry.Recall
import Depsolve.Proofs.Resolver.Grounds

/-!
One package under many spellings.

A name becomes a key only in its normal form, which normalization leaves alone and in which no
separator is left. So what is filed under one spelling is found under all that have the same normal
form.

* `isSettled_of_mem_normalize`: the characters of a normal form are settled, of whatever alphabet
  they are.
* `Registry.Finds`: a known spec is found in every look-up of the registry.
* `Resolver.meets_of_knows`: a request leads to the package that it spells.
* `LockFile.get?_toResolution`: a lock restores its packages under all spellings.
* `spellings_agree` puts them together for a spec that was built under some spelling.
-/

namespace Depsolve

variable {spelling other : String} {spec : PackageSpec}

/-! ### Normal forms -/

/-- The characters of a normal form are left alone by normalization. -/
theorem isSettled_of_mem_normalize {name : String} {c : Char} (h : c ∈ (normalize name).toList) :
    isSettled c := by
  rw [normalize, String.toList_ofList] at h
  exact isSettled_of_mem_normalizeFrom h

theorem isSettled.not_separator {c : Char} (h : isSettled c) :
    c ≠ '_' ∧ c ≠ '.' ∧ Text.isBlank c = false := by
  obtain ⟨hsep, -⟩ := h
  simp only [isSeparator, Bool.or_eq_false_iff, beq_eq_false_iff_ne] at hsep
  exact ⟨hsep.1.1, hsep.1.2, hsep.2⟩

/-! ### Specs -/

/-- The specs that the constructor and the builders give for a spelling of a name. -/
inductive PackageSpec.BuiltUnder (spelling : String) : PackageSpec → Prop where
  | new (v : Version) : BuiltUnder spelling (new spelling v)
  | withRuntime {s : PackageSpec} (h : BuiltUnder spelling s) (c : Constraint) :
      BuiltUnder spelling (s.withRuntime c)
  | withPlatforms {s : PackageSpec} (h : BuiltUnder spelling s) (platforms : List String) :
      BuiltUnder spelling (s.withPlatforms platforms)
  | withDependency {s : PackageSpec} (h : BuiltUnder spelling s) (name : String)
      (c : Constraint) : BuiltUnder spelling (s.withDependency name c)
  | withOptionalDependency {s : PackageSpec} (h : BuiltUnder spelling s) (group name : String)
      (c : Constraint) : BuiltUnder spelling (s.withOptionalDependency group name c)
  | withPrerelease {s : PackageSpec} (h : BuiltUnder spelling s) (prerelease : Bool) :
      BuiltUnder spelling (s.withPrerelease prerelease)

/-- The builders keep the name. -/
theorem PackageSpec.BuiltUnder.name_eq (h : spec.BuiltUnder spelling) :
    spec.name = PackageName.of spelling := by
  induction h with
  | new v => rfl
  | withRuntime _ _ ih => exact ih
  | withPlatforms _ _ ih => exact ih
  | withDependency _ _ _ ih => exact ih
  | withOptionalDependency _ _ _ _ ih => exact ih
  | withPrerelease _ _ ih => exact ih

/-! ### Registries -/

namespace Registry

variable {g : Registry}

/-- A registry finds a spec under a spelling of its name in every look-up. -/
structure Finds (g : Registry) (spelling : String) (spec : PackageSpec) : Prop where
  versions : ∃ vs, g.versions spelling = some vs ∧ spec ∈ vs.values
  get? : g.get? spelling spec.version = some spec
  contains : g.contains spelling = true

theorem contains_of_knows {name : PackageName} (hknows : g.Knows name spec)
    (hother : PackageName.of other = name) : g.contains other = true := by
  obtain ⟨vs, hvs, hspec⟩ := hknows
  obtain ⟨e, he, -⟩ := List.mem_map.mp hspec
  rw [contains, versions_of, hother, hvs, Option.any_some, SortedMap.isEmpty,
    List.isEmpty_eq_false_iff.mpr (List.ne_nil_of_mem he)]
  rfl

/-- A known spec is found under every spelling of its name. -/
theorem Indexed.finds (h : g.Indexed) (hknows : g.Knows spec.name spec)
    (hother : PackageName.of other = spec.name) : g.Finds other spec where
  versions := by
    rw [versions_of, hother]
    exact hknows
  get? := by
    rw [get?_of, hother]
    exact h.get?_of_knows hknows
  contains := contains_of_knows hknows hother

/-- An added spec is known. -/
theorem knows_add (g : Registry) (spec : PackageSpec) : (g.add spec).1.Knows spec.name spec := by
  refine knows_of_get? (v := spec.version) ?_
  rw [get?_add, if_pos ⟨rfl, Std.ReflOrd.compare_self⟩]

end Registry

/-- The registries that were filled with a spec find it under a spelling. One to which it was
added last and one that knows it find the spec itself, and one in which it was installed last
tells that it is installed; every one to which it was ever handed over has a version of the
package, and one that ties with that of the spec. -/
structure PackageSpec.FoundInRegistries (spec : PackageSpec) (spelling : String) : Prop where
  added (calls : List Registry.Call) :
    (Registry.empty.fill (calls ++ [.add spec])).Finds spelling spec
  installed (calls : List Registry.Call) :
    (Registry.empty.fill (calls ++ [.install spec])).installedOf (PackageName.of spelling) =
      some spec
  known (calls : List Registry.Call) (h : (Registry.empty.fill calls).Knows spec.name spec) :
    (Registry.empty.fill calls).Finds spelling spec
  handed (calls : List Registry.Call) (h : ∃ c ∈ calls, c.spec = spec) :
    (Registry.empty.fill calls).contains spelling = true ∧
      ∃ tied, (Registry.empty.fill calls).get? spelling spec.version = some tied ∧
        tied.name = spec.name ∧ compare spec.version tied.version = .eq

theorem PackageSpec.foundInRegistries (hother : PackageName.of other = spec.name) :
    spec.FoundInRegistries other where
  added calls := by
    refine (Registry.indexed_fill _).finds ?_ hother
    rw [Registry.fill_concat]
    exact Registry.knows_add _ spec
  installed calls := by
    rw [Registry.fill_concat, Registry.apply, Registry.installedOf_install, if_pos hother]
  known calls hknows := (Registry.indexed_fill calls).finds hknows hother
  handed calls hcall := by
    obtain ⟨c, hc, rfl⟩ := hcall
    obtain ⟨tied, htied⟩ := Registry.exists_get?_fill_iff.mpr
      ⟨c, hc, rfl, Std.ReflOrd.compare_self⟩
    have hindexed := Registry.indexed_fill calls
    refine ⟨Registry.contains_of_knows (Registry.knows_of_get? htied) hother, tied, ?_,
      hindexed.name _ _ _ htied, hindexed.version _ _ _ htied⟩
    rw [Registry.get?_of, hother, htied]

/-! ### Dependencies -/

section Followed

variable {r : Resolver} {roots : List Requirement} {name : PackageName} {constraint : Constraint}

/-- A conflict over a package of which a spec is known does not say that the package is missing. -/
theorem Resolver.kind_ne_missing_of_knows (hknows : r.registry.Knows name spec) {c : Conflict}
    (hc : c ∈ (r.resolve roots).conflicts) (hpackage : c.package = name.text) :
    c.kind ≠ .missing := by
  rw [r.conflicts_resolve] at hc
  obtain ⟨blamed, constraint, hblamed, -, hgrounded⟩ :=
    (r.reached_afterRoots roots).1.warranted c hc
  obtain rfl : blamed = name := PackageName.ext (hblamed.symm.trans hpackage)
  intro hkind
  rw [hkind] at hgrounded
  cases hgrounded with
  | missing hunknown => exact hunknown spec hknows

/-- A request for a package of which a spec is known leads to a known spec that satisfies it, or a
conflict says why it does not. -/
theorem Resolver.meets_of_knows (hknows : r.registry.Knows name spec)
    (hrequested : Requested roots (r.resolve roots).resolved name constraint) :
    (∃ chosen, (r.resolve roots).resolved.get? name.text = some chosen ∧
      r.registry.Knows name chosen ∧ constraint.holds chosen.version = true) ∨
      ∃ c ∈ (r.resolve roots).conflicts, c.package = name.text ∧ c.kind ≠ .missing := by
  have hkind (c : Conflict) (hc : c ∈ (r.resolve roots).conflicts) (h : c.package = name.text) :
      c.kind ≠ .missing := kind_ne_missing_of_knows hknows hc h
  obtain ⟨hreached, hstack⟩ := r.reached_afterRoots roots
  rw [r.resolved_resolve] at hrequested ⊢
  rw [r.conflicts_resolve] at hkind ⊢
  obtain ⟨parent, hsettled⟩ :
      ∃ parent, Settled r (r.afterRoots roots) parent name constraint := by
    cases hrequested with
    | root hroot hname hconstraint =>
      subst hname hconstraint
      exact ⟨none, (hreached.accounted.settled_root hstack hroot).settled⟩
    | dependency hparent hforce =>
      obtain ⟨parent, rfl⟩ := hreached.coherent.packageName hparent
      exact ⟨some parent, hreached.accounted.settled hstack hparent hforce⟩
  rcases hsettled.cases with ⟨chosen, hchosen, hholds, -⟩ | ⟨c, hc, hpackage⟩
  · exact .inl ⟨chosen, hchosen, hreached.accounted.knows hchosen, hholds⟩
  · exact .inr ⟨c, hc, hpackage, hkind c hc hpackage⟩

end Followed

/-- Dependencies that are declared under a spelling lead to a spec. They are filed under its name,
in the groups too; and where a registry knows the spec, a request for the spelling, by a root or
by a chosen package, ends in a known spec of that name or in a conflict that does not take the
package for missing. -/
structure PackageSpec.FoundByDependencies (spec : PackageSpec) (spelling : String) : Prop where
  required (dependent : PackageSpec) (c : Constraint) :
    (dependent.withDependency spelling c).dependencies.get? spec.name = some c
  optional (dependent : PackageSpec) (c : Constraint) {group group' : String}
    (h : normalize group' = normalize group) :
    ∃ deps, (dependent.withOptionalDependency group spelling c).extra group' = some deps ∧
      deps.get? spec.name = some c
  followed (r : Resolver) (hknows : r.registry.Knows spec.name spec) (roots : List Requirement)
    (c : Constraint)
    (h : Requested roots (r.resolve roots).resolved (PackageName.of spelling) c) :
    (∃ chosen, (r.resolve roots).get? spelling = some chosen ∧
      r.registry.Knows spec.name chosen ∧ c.holds chosen.version = true) ∨
      ∃ conflict ∈ (r.resolve roots).conflicts, conflict.package = spec.name.text ∧
        conflict.kind ≠ .missing

theorem PackageSpec.foundByDependencies (hother : PackageName.of other = spec.name) :
    spec.FoundByDependencies other where
  required dependent c := by
    rw [withDependency, SortedMap.get?_insert, hother, if_pos Std.ReflOrd.compare_self]
  optional dependent c {group group'} hgroup := by
    have hsame : PackageName.of group' = PackageName.of group := PackageName.ext hgroup
    refine ⟨((dependent.extras.get? (PackageName.of group)).getD SortedMap.empty).insert
      (PackageName.of other) c, ?_, ?_⟩
    · rw [extra, withOptionalDependency, SortedMap.get?_insert, hsame,
        if_pos Std.ReflOrd.compare_self]
    · rw [SortedMap.get?_insert, hother, if_pos Std.ReflOrd.compare_self]
  followed r hknows roots c hrequested := by
    rw [← hother] at hknows ⊢
    exact Resolver.meets_of_knows hknows hrequested

/-! ### Lock files -/

/-- What a lock keeps under a name in normal form is restored under all spellings of the name. -/
theorem LockFile.get?_toResolution (lock : LockFile) (spelling : String) :
    lock.toResolution.get? spelling = (lock.packages.get? (normalize spelling)).map
      (·.toSpec (normalize spelling)) :=
  InsertionMap.get?_mapEntries _ _ _

/-- Locks have a spec under a spelling: one of a resolution that chose the spec keeps it there and
restores it, and what a lock that is read keeps under any spelling of its name is restored there
as a spec of that name. -/
structure PackageSpec.FoundInLocks (spec : PackageSpec) (spelling : String) : Prop where
  frozen (context target : Context) (calls : List Registry.Call) (roots : List Requirement)
    (hsuccess : (((Resolver.new context).after calls).resolve roots).isSuccessful = true)
    {n : String}
    (hspec : (((Resolver.new context).after calls).resolve roots).resolved.get? n = some spec) :
    ∃ lock, LockFile.ofResolution (((Resolver.new context).after calls).resolve roots) target =
        .ok lock ∧
      lock.packages.get? (normalize spelling) = some (LockedPackage.ofSpec spec) ∧
      lock.restore = .ok lock.toResolution ∧ lock.toResolution.get? spelling = some spec
  read {text : String} {lock : LockFile} (h : LockFile.parse text = .ok lock) {n : String}
    (hn : n ∈ lock.packages.keys) (hname : normalize n = spec.name.text) :
    ∃ s, lock.toResolution.get? spelling = some s ∧ s.name = spec.name

theorem PackageSpec.foundInLocks (hother : normalize other = spec.name.text) :
    spec.FoundInLocks other where
  frozen context target calls roots hsuccess {n} hspec := by
    have hordered : (((Resolver.new context).after calls).resolve roots).Ordered :=
      Resolver.ordered_resolve (Resolver.indexed_after context calls)
    generalize ((Resolver.new context).after calls).resolve roots = R at *
    obtain rfl := hordered.name n spec hspec
    have hlocked : (LockFile.locked R target).packages.get? (normalize other) =
        some (LockedPackage.ofSpec spec) := by
      rw [hother, LockFile.locked, InsertionMap.get?_mapEntries, hspec, Option.map_some]
    refine ⟨_, LockFile.ofResolution_of_isSuccessful hsuccess, hlocked, ?_, ?_⟩
    · rw [LockFile.restore, LockFile.verify_eq_ok.mpr (LockFile.consistent_locked hordered)]
      rfl
    · rw [LockFile.get?_toResolution, hlocked, Option.map_some, hother,
        LockedPackage.toSpec_ofSpec]
  read {text lock} hread {n} hn hname := by
    obtain ⟨p, hp⟩ := InsertionMap.mem_keys_iff.mp hn
    -- the lock has its names in normal form, so it has only this one spelling of the name
    have hnormal := (LockFile.consistent_of_parse hread).normal n hn
    refine ⟨p.toSpec spec.name.text, ?_, ?_⟩
    · rw [LockFile.get?_toResolution, hother, ← hname, hnormal, hp, Option.map_some]
    · rw [LockedPackage.name_toSpec, PackageName.of_text]

/-! ### All spellings -/

/-- One package under many spellings. Normal forms are settled and have no separators, and the
name of a spec is one; so a spec that was built under some spelling is found by registries,
dependencies and locks under every spelling with the same normal form. -/
theorem spellings_agree :
    (∀ name : String, normalize (normalize name) = normalize name ∧
      ∀ c ∈ (normalize name).toList, c ≠ '_' ∧ c ≠ '.' ∧ Text.isBlank c = false) ∧
    (∀ (spec : PackageSpec) (v : Version), (PackageSpec.new spec.name.text v).name = spec.name) ∧
    ∀ (spelling : String) (spec : PackageSpec), spec.BuiltUnder spelling →
      ∀ other, normalize other = normalize spelling →
        spec.FoundInRegistries other ∧ spec.FoundByDependencies other ∧
          spec.FoundInLocks other := by
  refine ⟨fun name => ⟨normalize_normalize name, fun c hc => ?_⟩,
    fun spec v => PackageName.of_text spec.name, fun spelling spec hbuilt other hother => ?_⟩
  · exact (isSettled_of_mem_normalize hc).not_separator
  · have hname : PackageName.of other = spec.name := by
      rw [hbuilt.name_eq]
      exact PackageName.ext hother
    exact ⟨PackageSpec.foundInRegistries hname, PackageSpec.foundByDependencies hname,
      PackageSpec.foundInLocks (congrArg PackageName.text hname)⟩

/-- A library that is built under one spelling of its name and looked for under another. -/
theorem spellings_agree_myLib :
    (PackageSpec.new "My_Lib" (Version.release 2 0 0)).BuiltUnder "My_Lib" ∧
    normalize "my. LIB" = normalize "My_Lib" ∧
    (Registry.empty.fill [.add (PackageSpec.new "My_Lib" (Version.release 2 0 0))]).Finds "my. LIB"
      (PackageSpec.new "My_Lib" (Version.release 2 0 0)) := by
  have hbuilt : (PackageSpec.new "My_Lib" (Version.release 2 0 0)).BuiltUnder "My_Lib" := .new _
  have hother : normalize "my. LIB" = normalize "My_Lib" := by decide +kernel
  obtain ⟨hregistries, -⟩ := spellings_agree.2.2 _ _ hbuilt _ hother
  exact ⟨hbuilt, hother, hregistries.added []⟩

end Depsolve
