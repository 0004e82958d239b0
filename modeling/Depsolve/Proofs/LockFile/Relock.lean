import Depsolve.Proofs.LockFile.RoundTrip

/-!
Locking what a lock restores.

A lock need not come from a resolution: the check on reading looks at the names of the packages
and at the order of installation, not into the packages. Specs have their names and platforms in
normal forms, so that a package is restored and locked again as its normal form.

* `Canonical`: a locked package that has the forms of a spec throughout.
* `Settles`: what becomes of a package. Names are normalized, of entries whose names fall
  together the last one counts, platforms are trimmed and empty groups are gone.
* `Settles.unique`, `settles_ofSpec_toSpec`: this says all, and it is what happens.
* `ofSpec_toSpec_eq_iff`: just the canonical packages stay as they are.
* `relock_settles`: the restored resolution is locked in every context, each package settles,
  and nothing else changes.
* `relock_not_identity`: packages of a lock that is read need not stay as they are.
-/

namespace Depsolve.LockedPackage

variable {p a b : LockedPackage}

/-! ### Normal forms -/

/-- Names and platforms are in the forms in which specs have them, and no group is empty. -/
structure Canonical (p : LockedPackage) : Prop where
  platforms : ∀ platform ∈ p.platforms.toList, Text.trim platform = platform
  dependencies : ∀ e ∈ p.dependencies.entries, normalize e.1 = e.1
  groups : ∀ group ∈ p.extras.entries, normalize group.1 = group.1
  members : ∀ group ∈ p.extras.entries, ∀ e ∈ group.2.entries, normalize e.1 = e.1
  filled : ∀ group ∈ p.extras.entries, group.2.isEmpty = false

/-- The dependencies of all groups, each under its group and its name. -/
def optional (p : LockedPackage) : List ((String × String) × Constraint) :=
  p.extras.entries.flatMap fun group => group.2.entries.map fun e => ((group.1, e.1), e.2)

/-- The constraint under a group and a name. -/
def optional? (p : LockedPackage) (group name : String) : Option Constraint :=
  (p.extras.get? group).bind (·.get? name)

/-- The group and the name that two texts spell. -/
def memberOf : String × String → PackageName × PackageName :=
  Prod.map PackageName.of PackageName.of

/-- The package `b` is `a` in normal form: every name of `b` is normal and stands for the last
entry of `a` that is named so in normal form, and `b` has the platforms of `a` without the white
space at their ends. -/
structure Settles (a b : LockedPackage) : Prop where
  canonical : b.Canonical
  version : b.version = a.version
  runtime : b.runtime = a.runtime
  prerelease : b.prerelease = a.prerelease
  platforms : ∀ platform, platform ∈ b.platforms.toList ↔
    ∃ spelling ∈ a.platforms.toList, Text.trim spelling = platform
  dependencies : ∀ name : PackageName,
    b.dependencies.get? name.text = lastUnder PackageName.of name a.dependencies.entries
  optional : ∀ group name : PackageName,
    b.optional? group.text name.text = lastUnder memberOf (group, name) a.optional

/-! ### The normal form is unique -/

/-- Maps whose keys are normal are determined by their answers for names. -/
theorem ext_of_normal {α : Type} {m n : SortedMap String α}
    (hm : ∀ e ∈ m.entries, normalize e.1 = e.1) (hn : ∀ e ∈ n.entries, normalize e.1 = e.1)
    (h : ∀ name : PackageName, m.get? name.text = n.get? name.text) : m = n := by
  have hnone : ∀ m : SortedMap String α, (∀ e ∈ m.entries, normalize e.1 = e.1) →
      ∀ k, normalize k ≠ k → m.get? k = none := fun m hm k hk =>
    Option.eq_none_iff_forall_ne_some.mpr fun v hv =>
      hk (hm _ (SortedMap.get?_eq_some_iff.mp hv))
  refine SortedMap.ext_get? fun k => ?_
  by_cases hk : normalize k = k
  · exact h ⟨k, hk⟩
  · rw [hnone m hm k hk, hnone n hn k hk]

/-- A group that is filled gives a constraint under some name. -/
theorem Canonical.exists_optional? (h : p.Canonical) {group : String} {deps : LockedDependencies}
    (hdeps : p.extras.get? group = some deps) :
    ∃ (name : PackageName) (c : Constraint), p.optional? group name.text = some c := by
  have hmem := SortedMap.get?_eq_some_iff.mp hdeps
  cases hentries : deps.entries with
  | nil =>
    have hfilled := h.filled _ hmem
    rw [SortedMap.isEmpty, hentries] at hfilled
    cases hfilled
  | cons e es =>
    have he : e ∈ deps.entries := hentries ▸ List.mem_cons_self
    refine ⟨⟨e.1, h.members _ hmem e he⟩, e.2, ?_⟩
    rw [optional?, hdeps]
    exact SortedMap.get?_of_mem_entries he

/-- Canonical packages have the same groups if they have the same constraints in them. -/
theorem Canonical.extras_eq (ha : a.Canonical) (hb : b.Canonical)
    (h : ∀ group name : PackageName,
      a.optional? group.text name.text = b.optional? group.text name.text) :
    a.extras = b.extras := by
  refine ext_of_normal ha.groups hb.groups fun group => ?_
  cases hga : a.extras.get? group.text with
  | none =>
    cases hgb : b.extras.get? group.text with
    | none => rfl
    | some deps =>
      obtain ⟨name, c, hc⟩ := hb.exists_optional? hgb
      rw [← h, optional?, hga] at hc
      cases hc
  | some deps =>
    cases hgb : b.extras.get? group.text with
    | none =>
      obtain ⟨name, c, hc⟩ := ha.exists_optional? hga
      rw [h, optional?, hgb] at hc
      cases hc
    | some deps' =>
      refine congrArg some (ext_of_normal (ha.members _ (SortedMap.get?_eq_some_iff.mp hga))
        (hb.members _ (SortedMap.get?_eq_some_iff.mp hgb)) fun name => ?_)
      simpa [optional?, hga, hgb] using h group name

/-- A package has one normal form. -/
theorem Settles.unique {b' : LockedPackage} (h : a.Settles b) (h' : a.Settles b') : b = b' := by
  have hplatforms : b.platforms = b'.platforms :=
    SortedSet.ext_toList fun platform => (h.platforms platform).trans (h'.platforms platform).symm
  have hdependencies : b.dependencies = b'.dependencies :=
    ext_of_normal h.canonical.dependencies h'.canonical.dependencies fun name =>
      (h.dependencies name).trans (h'.dependencies name).symm
  have hextras : b.extras = b'.extras :=
    h.canonical.extras_eq h'.canonical fun group name =>
      (h.optional group name).trans (h'.optional group name).symm
  have hversion := h.version.trans h'.version.symm
  have hruntime := h.runtime.trans h'.runtime.symm
  have hprerelease := h.prerelease.trans h'.prerelease.symm
  cases b
  cases b'
  cases hversion; cases hruntime; cases hplatforms; cases hdependencies; cases hextras
  cases hprerelease
  rfl

/-! ### Canonical packages are their own normal forms -/

/-- No dependency stands twice under one group and one name. -/
theorem nodup_optional (p : LockedPackage) : (p.optional.map (·.1)).Nodup := by
  simp only [optional, List.map_flatMap, List.map_map, Function.comp_def]
  refine List.nodup_flatMap.mpr ⟨fun group _ => ?_, ?_⟩
  · have hmap : (group.2.entries.map fun e => (group.1, e.1)) =
        (group.2.entries.map (·.1)).map fun name => (group.1, name) := by
      simp [Function.comp_def]
    rw [hmap]
    exact group.2.nodup_keys.map fun _ _ h => (Prod.mk.inj h).2
  · refine (List.pairwise_map.mp p.extras.nodup_keys).imp fun {g g'} hne => ?_
    intro x hx hx'
    obtain ⟨e, -, rfl⟩ := List.mem_map.mp hx
    obtain ⟨e', -, heq⟩ := List.mem_map.mp hx'
    exact hne (Prod.mk.inj heq).1.symm

theorem mem_optional_iff {group name : String} {c : Constraint} :
    ((group, name), c) ∈ p.optional ↔ p.optional? group name = some c := by
  rw [optional?, Option.bind_eq_some_iff, optional, List.mem_flatMap]
  constructor
  · rintro ⟨⟨g, deps⟩, hg, hmem⟩
    obtain ⟨e, he, heq⟩ := List.mem_map.mp hmem
    cases heq
    exact ⟨deps, SortedMap.get?_eq_some_iff.mpr hg, SortedMap.get?_of_mem_entries he⟩
  · rintro ⟨deps, hdeps, hc⟩
    exact ⟨(group, deps), SortedMap.get?_eq_some_iff.mp hdeps,
      List.mem_map.mpr ⟨(name, c), SortedMap.get?_eq_some_iff.mp hc, rfl⟩⟩

/-- A text in normal form spells the name that it is. -/
theorem of_eq_iff {text : String} (h : normalize text = text) {name : PackageName} :
    PackageName.of text = name ↔ text = name.text := by
  constructor
  · rintro rfl
    exact h.symm
  · intro heq
    rw [heq, PackageName.of_text]

theorem Canonical.settles (h : p.Canonical) : p.Settles p where
  canonical := h
  version := rfl
  runtime := rfl
  prerelease := rfl
  platforms platform := by
    constructor
    · exact fun hmem => ⟨platform, hmem, h.platforms platform hmem⟩
    · rintro ⟨spelling, hmem, rfl⟩
      rwa [h.platforms spelling hmem]
  dependencies name := by
    have hlast : lastUnder PackageName.of name p.dependencies.entries =
        lastUnder id name.text p.dependencies.entries :=
      lastUnder_congr fun e he => of_eq_iff (h.dependencies e he)
    refine Option.ext fun c => ?_
    rw [hlast, lastUnder_id_eq_some_iff p.dependencies.nodup_keys, SortedMap.get?_eq_some_iff]
  optional group name := by
    have hlast : lastUnder memberOf (group, name) p.optional =
        lastUnder id (group.text, name.text) p.optional := by
      refine lastUnder_congr fun e he => ?_
      obtain ⟨g, hg, hmem⟩ := List.mem_flatMap.mp he
      obtain ⟨d, hd, rfl⟩ := List.mem_map.mp hmem
      rw [memberOf, Prod.map_apply, id, Prod.mk.injEq, Prod.mk.injEq]
      exact and_congr (of_eq_iff (h.groups g hg)) (of_eq_iff (h.members g hg d hd))
    refine Option.ext fun c => ?_
    rw [hlast, lastUnder_id_eq_some_iff p.nodup_optional, mem_optional_iff]

/-! ### What is kept of the restored spec -/

theorem normal_lockDependencies (deps : Dependencies) :
    ∀ e ∈ (lockDependencies deps).entries, normalize e.1 = e.1 := by
  rw [entries_lockDependencies, List.forall_mem_map]
  exact fun e _ => e.1.normal

/-- What is kept of a spec has its forms. -/
theorem canonical_ofSpec (s : PackageSpec) : (ofSpec s).Canonical where
  platforms := by
    rw [toList_platforms_ofSpec, List.forall_mem_map]
    exact fun platform _ => platform.trimmed
  dependencies := normal_lockDependencies s.dependencies
  groups := by
    rw [entries_extras_ofSpec, List.forall_mem_map]
    exact fun group _ => group.1.normal
  members := by
    rw [entries_extras_ofSpec, List.forall_mem_map]
    exact fun group _ => normal_lockDependencies group.2
  filled := by
    rw [entries_extras_ofSpec, List.forall_mem_map]
    intro group hgroup
    have hfilled := s.extras_nonempty group hgroup
    rwa [SortedMap.isEmpty, entries_lockDependencies, List.isEmpty_map]

/-- A map whose keys are the texts of names answers as the map of the names. -/
theorem get?_text {α β : Type} {m : SortedMap PackageName α} {n : SortedMap String β} {f : α → β}
    (h : n.entries = m.entries.map fun e => (e.1.text, f e.2)) (name : PackageName) :
    n.get? name.text = (m.get? name).map f := by
  rw [SortedMap.get?, SortedMap.get?, h, List.find?_map, Option.map_map, Option.map_map]
  rfl

theorem get?_lockDependencies (deps : Dependencies) (name : PackageName) :
    (lockDependencies deps).get? name.text = deps.get? name := by
  rw [get?_text (f := id) (entries_lockDependencies deps), Option.map_id, id]

theorem optional?_ofSpec (s : PackageSpec) (group name : PackageName) :
    (ofSpec s).optional? group.text name.text = (s.extras.get? group).bind (·.get? name) := by
  rw [optional?, get?_text (entries_extras_ofSpec s), Option.bind_map]
  exact congrArg _ (funext fun deps => get?_lockDependencies deps name)

/-- One more dependency in a group changes the answer for itself only. -/
theorem get?_addOptional (extras : SortedMap PackageName Dependencies)
    (group name group' name' : PackageName) (c : Constraint) :
    ((addOptional extras group name c).get? group').bind (·.get? name') =
      if (group, name) = (group', name') then some c
      else (extras.get? group').bind (·.get? name') := by
  rw [addOptional, SortedMap.get?_insert]
  by_cases hgroup : group = group'
  · subst hgroup
    by_cases hname : name = name'
    · subst hname
      simp [SortedMap.get?_insert, Std.ReflOrd.compare_self]
    · have hcompare : compare name' name ≠ .eq := fun heq =>
        hname (Std.LawfulEqOrd.eq_of_compare heq).symm
      cases hdeps : extras.get? group with
      | none =>
        have hempty : (SortedMap.empty : Dependencies).get? name' = none := rfl
        simp [SortedMap.get?_insert, Std.ReflOrd.compare_self, hcompare, hname, hempty]
      | some deps => simp [SortedMap.get?_insert, Std.ReflOrd.compare_self, hcompare, hname]
  · have hcompare : compare group' group ≠ .eq := fun heq =>
      hgroup (Std.LawfulEqOrd.eq_of_compare heq).symm
    simp [hcompare, hgroup]

/-- The groups of a restored spec are filled with one dependency after another. -/
theorem extras_toSpec_eq_foldl (p : LockedPackage) (name : String) :
    (p.toSpec name).extras = p.optional.foldl (fun extras e =>
      addOptional extras (memberOf e.1).1 (memberOf e.1).2 e.2) SortedMap.empty := by
  simp only [extras_toSpec, optional, List.foldl_flatMap, List.foldl_map]
  rfl

/-- A restored spec has the last constraint under each group and name. -/
theorem get?_extras_toSpec (p : LockedPackage) (spelling : String) (group name : PackageName) :
    ((p.toSpec spelling).extras.get? group).bind (·.get? name) =
      lastUnder memberOf (group, name) p.optional := by
  rw [extras_toSpec_eq_foldl]
  induction p.optional using List.reverseRecOn with
  | nil => rfl
  | append_singleton es e ih =>
    rw [List.foldl_append, List.foldl_cons, List.foldl_nil, get?_addOptional, ih,
      lastUnder_append_singleton]

/-- A package is restored and locked again in normal form. -/
theorem settles_ofSpec_toSpec (p : LockedPackage) (name : String) :
    p.Settles (ofSpec (p.toSpec name)) where
  canonical := canonical_ofSpec _
  version := toSpec_frame PackageSpec.version p name (fun _ _ _ => rfl) fun _ _ _ _ => rfl
  runtime := toSpec_frame PackageSpec.runtime p name (fun _ _ _ => rfl) fun _ _ _ _ => rfl
  prerelease := toSpec_frame PackageSpec.prerelease p name (fun _ _ _ => rfl) fun _ _ _ _ => rfl
  platforms platform := by
    rw [toList_platforms_ofSpec, platforms_toSpec, List.mem_map]
    simp only [SortedSet.mem_toList_ofList, List.mem_map, exists_exists_and_eq_and]
    rfl
  dependencies n := by
    rw [ofSpec, get?_lockDependencies, dependencies_toSpec]
    exact SortedMap.get?_ofList_map PackageName.of _ n
  optional group n := by
    rw [optional?_ofSpec, get?_extras_toSpec]

/-- Just the canonical packages are restored and locked again as they are. -/
theorem ofSpec_toSpec_eq_iff {name : String} : ofSpec (p.toSpec name) = p ↔ p.Canonical := by
  constructor
  · intro h
    rw [← h]
    exact canonical_ofSpec _
  · intro h
    exact (settles_ofSpec_toSpec p name).unique h.settles

end Depsolve.LockedPackage

namespace Depsolve

namespace LockFile

theorem isSuccessful_toResolution (l : LockFile) : l.toResolution.isSuccessful = true := rfl

theorem get?_packages_relocked (l : LockFile) (context : Context) (name : String) :
    (locked l.toResolution context).packages.get? name =
      (l.packages.get? name).map fun p => LockedPackage.ofSpec (p.toSpec name) := by
  simp only [locked, toResolution, InsertionMap.get?_mapEntries, Option.map_map]
  rfl

theorem keys_packages_relocked (l : LockFile) (context : Context) :
    (locked l.toResolution context).packages.keys = l.packages.keys := by
  rw [keys_packages_locked]
  exact InsertionMap.keys_mapEntries _ _

/-- The packages of a lock stay as they are just if all of them are canonical. -/
theorem packages_relocked_eq_iff (l : LockFile) (context : Context) :
    (locked l.toResolution context).packages = l.packages ↔
      ∀ name p, l.packages.get? name = some p → p.Canonical := by
  constructor
  · intro h name p hp
    have hkept := get?_packages_relocked l context name
    rw [h, hp, Option.map_some, Option.some.injEq] at hkept
    exact LockedPackage.ofSpec_toSpec_eq_iff.mp hkept.symm
  · intro h
    refine InsertionMap.ext ?_
    have hentry : ∀ e ∈ l.packages.entries,
        (e.1, LockedPackage.ofSpec (e.2.toSpec e.1)) = e := fun e he =>
      Prod.ext rfl (LockedPackage.ofSpec_toSpec_eq_iff.mpr
        (h e.1 e.2 (InsertionMap.get?_eq_some_iff.mpr he)))
    simp only [locked, toResolution, InsertionMap.mapEntries, List.map_map]
    exact (List.map_congr_left hentry).trans (List.map_id _)

end LockFile

/-- What a lock restores is locked in every context, with the same names in the same order and
the same order of installation. Each package has settled in its normal form, and all packages
are as they were just if they were canonical. -/
theorem relock_settles (l : LockFile) (context : Context) :
    ∃ relocked, LockFile.ofResolution l.toResolution context = .ok relocked ∧
      relocked.order = l.order ∧
      relocked.packages.keys = l.packages.keys ∧
      (∀ name p, l.packages.get? name = some p →
        ∃ q, relocked.packages.get? name = some q ∧ p.Settles q) ∧
      (relocked.packages = l.packages ↔
        ∀ name p, l.packages.get? name = some p → p.Canonical) := by
  refine ⟨_, LockFile.ofResolution_of_isSuccessful l.isSuccessful_toResolution, rfl,
    l.keys_packages_relocked context, ?_, l.packages_relocked_eq_iff context⟩
  intro name p hp
  refine ⟨LockedPackage.ofSpec (p.toSpec name), ?_, p.settles_ofSpec_toSpec name⟩
  rw [l.get?_packages_relocked, hp, Option.map_some]

namespace LockFile

/-- An application as no spec gives it: one library is named twice, the platform has a blank in
front, and a group is empty. -/
def unsettled : LockedPackage where
  version := Version.release 1 0 0
  runtime := Constraint.any
  platforms := SortedSet.ofList [" 2024"]
  dependencies := SortedMap.ofList [("My_Lib", Constraint.any), ("my-lib", fromTwo)]
  extras := SortedMap.ofList [("docs", SortedMap.empty)]
  prerelease := false

/-- The application in normal form. -/
def settled : LockedPackage :=
  { unsettled with
    platforms := SortedSet.ofList ["2024"]
    dependencies := SortedMap.ofList [("my-lib", fromTwo)]
    extras := SortedMap.empty }

/-- A lock of the application as no spec gives it. -/
def handWritten : LockFile where
  formatVersion := currentFormat
  runtime := none
  platform := none
  packages := InsertionMap.ofList [("app", unsettled)]
  order := ["app"]

theorem parse_handWritten : parse handWritten.render = .ok handWritten := by
  have hconsistent : handWritten.Consistent := verify_eq_ok.mp (by decide +kernel)
  have htwo : Constraint.parse "^2.0" = .ok fromTwo := by decide +kernel
  have hwell : unsettled.WellFormed := by
    refine ⟨built_app.wellFormed.version, Constraint.wellFormed_any, ?_, ?_⟩
    · simp [unsettled, SortedMap.mem_entries_ofList, Constraint.wellFormed_any,
        Constraint.wellFormed_of_parse htwo]
    · simp [unsettled, SortedMap.mem_entries_ofList, SortedMap.empty]
  have hpackages : ∀ e ∈ handWritten.packages.entries, e.2.WellFormed := by
    rw [handWritten, InsertionMap.entries_ofList_of_nodup (by simp)]
    simpa using hwell
  rw [parse_render hconsistent hpackages]
  rfl

end LockFile

/-- A lock is read whose package is not locked again as it is: one of the dependencies, the blank
and the group are lost. -/
theorem relock_not_identity :
    LockFile.parse LockFile.handWritten.render = .ok LockFile.handWritten ∧
      ∀ context, ∃ relocked,
        LockFile.ofResolution LockFile.handWritten.toResolution context = .ok relocked ∧
        relocked.packages = InsertionMap.ofList [("app", LockFile.settled)] ∧
        relocked.packages ≠ LockFile.handWritten.packages := by
  have hsettled : LockedPackage.ofSpec (LockFile.unsettled.toSpec "app") = LockFile.settled := by
    decide +kernel
  have hpackages : ∀ context,
      (LockFile.locked LockFile.handWritten.toResolution context).packages =
        InsertionMap.ofList [("app", LockFile.settled)] := fun context =>
    InsertionMap.ext (congrArg (fun p => [("app", p)]) hsettled)
  have hother : (InsertionMap.ofList [("app", LockFile.settled)] : InsertionMap _ _) ≠
      LockFile.handWritten.packages := by decide +kernel
  refine ⟨LockFile.parse_handWritten, fun context => ⟨_, LockFile.ofResolution_of_isSuccessful
    LockFile.handWritten.isSuccessful_toResolution, hpackages context, ?_⟩⟩
  rw [hpackages context]
  exact hother

end Depsolve
