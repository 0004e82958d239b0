import Depsolve.Proofs.Selection

/-!
Which spec is selected, and which filter is at fault where none is.

Selection walks through the known specs from the newest on and looks at runtime and platform before
the prerelease policy; the explanation walks from the oldest on and puts the policy first.

* `Versions.Filled` are the maps of versions that specs were put into, in any order. A spec may
  stand under a version that is written otherwise than its own, but not under one that compares
  different, so the specs are ascending as the versions that they stand under are.
* `compatible_eq_reverse_left`: what the last filter of the explanation leaves are the candidates
  of the selection, the other way round.
* `select_eq_ok_iff` says which candidate is selected, `emptied?_eq_some_iff` which failure is
  given where there is none.
* `selection_exact` puts them together.
-/

namespace Depsolve

/-! ### Maps of versions -/

namespace Versions

/-- The maps that specs were put into one after another, each under its version. A spec that is
added replaces one of an equal version, a spec that is installed gives way to it. -/
inductive Filled : Versions → Prop where
  | empty : Filled SortedMap.empty
  | add {vs : Versions} (h : Filled vs) (s : PackageSpec) : Filled (vs.insert s.version s)
  | install {vs : Versions} (h : Filled vs) (s : PackageSpec) :
      Filled (vs.insertIfNew s.version s)

variable {vs : Versions} {v : Version} {spec : PackageSpec}

/-- A spec is found only under versions that compare equal to its own. -/
theorem Filled.compare_eq (h : vs.Filled) (hspec : vs.get? v = some spec) :
    compare v spec.version = .eq := by
  have hinsert {vs : Versions} (ih : vs.get? v = some spec → compare v spec.version = .eq)
      (s : PackageSpec) (hspec : (vs.insert s.version s).get? v = some spec) :
      compare v spec.version = .eq := by
    rw [SortedMap.get?_insert] at hspec
    split at hspec
    · cases hspec
      assumption
    · exact ih hspec
  induction h with
  | empty => cases hspec
  | add _ s ih => exact hinsert ih s hspec
  | install _ s ih =>
    rw [SortedMap.insertIfNew] at hspec
    split at hspec
    · exact ih hspec
    · exact hinsert ih s hspec

/-- The specs are ascending by their own versions. -/
theorem Filled.ascending_values (h : vs.Filled) :
    vs.values.Pairwise fun a b => compare a.version b.version = .lt := by
  refine List.pairwise_map.mpr (vs.ascending.imp_of_mem fun {a b} ha hb hlt => ?_)
  rw [← Std.TransCmp.congr_left (h.compare_eq (SortedMap.get?_of_mem_entries ha)),
    ← Std.TransCmp.congr_right (h.compare_eq (SortedMap.get?_of_mem_entries hb))]
  exact hlt

/-- The versions of a package in a registry were filled by the calls about it. -/
theorem filled_of_versionsOf {calls : List Registry.Call} {name : PackageName}
    (h : (Registry.empty.fill calls).versionsOf name = some vs) : vs.Filled := by
  have hinsert {g : Registry} (ih : ∀ vs, g.versionsOf name = some vs → vs.Filled)
      (s : PackageSpec) (hname : name = s.name) :
      ((g.versionsOf s.name).getD SortedMap.empty).Filled := by
    rw [← hname]
    cases hvs : g.versionsOf name with
    | none => exact .empty
    | some vs => exact ih vs hvs
  induction calls using List.reverseRecOn generalizing vs with
  | nil => cases h
  | append_singleton calls c ih =>
    rw [Registry.fill_concat] at h
    cases c with
    | add s =>
      rw [Registry.apply, Registry.add, Registry.versionsOf_insert] at h
      split at h
      · rename_i hname
        cases h
        exact (hinsert (fun _ => ih) s hname).add s
      · exact ih h
    | install s =>
      rw [Registry.apply, Registry.install, Registry.versionsOf_insert] at h
      split at h
      · rename_i hname
        cases h
        exact (hinsert (fun _ => ih) s hname).install s
      · exact ih h

end Versions

/-! ### Filters -/

/-- What a version has to pass on its way to be selected. -/
inductive SelectionFilter where
  /-- There has to be a version. -/
  | known
  | constraint
  | prerelease
  | runtime
  | platform
  deriving DecidableEq

/-- The filters as they are put one after another to explain a failure. -/
def SelectionFilter.order : List SelectionFilter :=
  [known, constraint, prerelease, runtime, platform]

/-- The filter that a failure names. -/
def SelectionFailure.filter : SelectionFailure → SelectionFilter
  | notFound => .known
  | unsatisfiable _ => .constraint
  | prereleaseOnly _ => .prerelease
  | runtimeIncompatible _ => .runtime
  | platformIncompatible _ => .platform

namespace Selector

variable {s : Selector} {constraint : Constraint} {installed : Option Version}
  {spec : PackageSpec} {filter : SelectionFilter} {f : SelectionFailure}

/-- The specs that are left after a filter and all that stand in front of it. -/
def left (s : Selector) (constraint : Constraint) : SelectionFilter → List PackageSpec
  | .known => s.specs
  | .constraint => s.satisfying constraint
  | .prerelease => s.allowed constraint
  | .runtime => (s.allowed constraint).filter (·.fitsRuntime s.context)
  | .platform =>
    ((s.allowed constraint).filter (·.fitsRuntime s.context)).filter (·.fitsPlatform s.context)

/-- The first filter after which no spec is left. -/
def emptied? (s : Selector) (constraint : Constraint) : Option SelectionFilter :=
  SelectionFilter.order.find? fun filter => (s.left constraint filter).isEmpty

/-- The order of the filters does not matter for what is left at the end. -/
theorem compatible_eq_reverse_left (s : Selector) (constraint : Constraint) :
    s.compatible constraint = (s.left constraint .platform).reverse := by
  have haccepts : s.accepts constraint = fun spec =>
      spec.fitsPlatform s.context && (spec.fitsRuntime s.context &&
        (spec.fitsPrerelease s.context && constraint.holds spec.version)) := by
    funext spec
    rw [accepts]
    ac_rfl
  simp only [compatible, left, allowed, satisfying, List.filter_filter, List.filter_reverse,
    haccepts]

/-- What the last filter leaves was left by all of them. -/
theorem mem_left_of_mem_platform (h : spec ∈ s.left constraint .platform)
    (filter : SelectionFilter) : spec ∈ s.left constraint filter := by
  have hruntime : spec ∈ s.left constraint .runtime := List.mem_of_mem_filter h
  have hallowed : spec ∈ s.allowed constraint := List.mem_of_mem_filter hruntime
  have hsatisfying : spec ∈ s.satisfying constraint := List.mem_of_mem_filter hallowed
  cases filter with
  | known => exact List.mem_of_mem_filter hsatisfying
  | constraint => exact hsatisfying
  | prerelease => exact hallowed
  | runtime => exact hruntime
  | platform => exact h

/-- Where a filter leaves nothing, there is no candidate. -/
theorem compatible_eq_nil_of_left (h : s.left constraint filter = []) :
    s.compatible constraint = [] := by
  rw [compatible_eq_reverse_left, List.reverse_eq_nil_iff, List.eq_nil_iff_forall_not_mem]
  intro spec hspec
  have hleft := mem_left_of_mem_platform hspec filter
  rw [h] at hleft
  cases hleft

theorem specs_ne_nil_of_satisfying (h : s.satisfying constraint ≠ []) : s.specs ≠ [] :=
  fun hspecs => h (by rw [satisfying, hspecs, List.filter_nil])

theorem satisfying_ne_nil_of_allowed (h : s.allowed constraint ≠ []) :
    s.satisfying constraint ≠ [] :=
  fun hsatisfying => h (by rw [allowed, hsatisfying, List.filter_nil])

/-- The reason for which there is no candidate names the first filter that leaves nothing. -/
theorem Explained.emptied? (h : s.Explained constraint f) :
    s.emptied? constraint = some f.filter := by
  unfold Selector.emptied?
  cases h with
  | notFound hspecs => simp [SelectionFilter.order, left, SelectionFailure.filter, hspecs]
  | unsatisfiable hspecs hsatisfying =>
    simp [SelectionFilter.order, left, SelectionFailure.filter, hspecs, hsatisfying]
  | prereleaseOnly hsatisfying hallowed =>
    have hspecs := specs_ne_nil_of_satisfying hsatisfying
    simp [SelectionFilter.order, left, SelectionFailure.filter, hspecs, hsatisfying, hallowed]
  | runtimeIncompatible hallowed hruntime =>
    have hsatisfying := satisfying_ne_nil_of_allowed hallowed
    have hspecs := specs_ne_nil_of_satisfying hsatisfying
    simpa [SelectionFilter.order, left, SelectionFailure.filter, hspecs, hsatisfying, hallowed]
      using hruntime
  | platformIncompatible hruntime hplatform =>
    obtain ⟨spec, hspec, hfits⟩ := hruntime
    have hallowed : s.allowed constraint ≠ [] := List.ne_nil_of_mem hspec
    have hsatisfying := satisfying_ne_nil_of_allowed hallowed
    have hspecs := specs_ne_nil_of_satisfying hsatisfying
    have hleft : (s.allowed constraint).filter (·.fitsRuntime s.context) ≠ [] :=
      List.ne_nil_of_mem (List.mem_filter.mpr ⟨hspec, hfits⟩)
    have hnone : ((s.allowed constraint).filter (·.fitsRuntime s.context)).filter
        (·.fitsPlatform s.context) = [] := by
      refine List.filter_eq_nil_iff.mpr fun spec hspec => ?_
      obtain ⟨hspec, hfits⟩ := List.mem_filter.mp hspec
      rw [hplatform spec hspec hfits]
      exact Bool.false_ne_true
    simp only [SelectionFilter.order, left, SelectionFailure.filter, List.find?_cons, hnone,
      List.isEmpty_nil, List.isEmpty_eq_false_iff.mpr hspecs,
      List.isEmpty_eq_false_iff.mpr hsatisfying, List.isEmpty_eq_false_iff.mpr hallowed,
      List.isEmpty_eq_false_iff.mpr hleft]

/-- A selection without candidates fails with its explanation. -/
theorem select_of_compatible_eq_nil (h : s.compatible constraint = []) :
    s.select constraint installed = .error (s.explain constraint) := by
  have hpreferred : s.preferred [] installed = none := by
    rw [Option.eq_none_iff_forall_ne_some]
    intro spec hspec
    exact List.not_mem_nil (mem_of_preferred hspec)
  simp [select, h, hpreferred]

/-- The first filter that leaves nothing is the one that the failure names. -/
theorem emptied?_eq_some_iff :
    s.emptied? constraint = some filter ↔
      ∃ f, s.select constraint installed = .error f ∧ f.filter = filter := by
  constructor
  · intro h
    rw [emptied?] at h
    have hleft : s.left constraint filter = [] := by simpa using List.find?_some h
    have hnone := compatible_eq_nil_of_left hleft
    refine ⟨_, select_of_compatible_eq_nil hnone, ?_⟩
    exact Option.some.inj ((explained_explain hnone).emptied?.symm.trans h)
  · rintro ⟨f, hf, rfl⟩
    exact (explained_of_select_error hf).emptied?

/-! ### Candidates -/

/-- The spec that is installed already and passes, where installed versions are preferred. -/
structure Stays (s : Selector) (constraint : Constraint) (installed : Option Version)
    (spec : PackageSpec) : Prop where
  preferred : s.context.preferInstalled = true
  installed : installed = some spec.version
  passes : spec ∈ s.compatible constraint

/-- The versions to choose from, if the package is known, were filled with its specs. -/
def Filled (s : Selector) : Prop := ∀ vs, s.available = some vs → vs.Filled

theorem ascending_specs (hs : s.Filled) :
    s.specs.Pairwise fun a b => compare a.version b.version = .lt := by
  rw [specs]
  split
  · rename_i vs hvs
    exact (hs vs hvs).ascending_values
  · exact .nil

/-- The candidates are listed from the newest on, no two of one version. -/
theorem descending_compatible (hs : s.Filled) :
    (s.compatible constraint).Pairwise fun a b => compare a.version b.version = .gt := by
  refine List.Pairwise.filter _ (List.pairwise_reverse.mpr ?_)
  exact (ascending_specs hs).imp fun {a b} h => Std.OrientedCmp.gt_of_lt h

theorem eq_of_version_eq (hs : s.Filled) {a b : PackageSpec}
    (ha : a ∈ s.specs) (hb : b ∈ s.specs) (h : a.version = b.version) : a = b := by
  have hnodup : (s.specs.map (·.version)).Nodup := by
    refine List.pairwise_map.mpr ((ascending_specs hs).imp fun {a b} hlt heq => ?_)
    rw [heq, Std.ReflOrd.compare_self] at hlt
    cases hlt
  exact List.inj_on_of_nodup_map hnodup ha hb h

theorem stays_of_preferred (h : s.preferred (s.compatible constraint) installed = some spec) :
    s.Stays constraint installed spec := by
  have hmem := mem_of_preferred h
  unfold preferred at h
  split at h
  · split at h
    · rename_i v hprefer
      have hversion : spec.version = v := by simpa using List.find?_some h
      exact ⟨hprefer, congrArg some hversion.symm, hmem⟩
    · cases h
  · cases h

/-- The installed spec is selected where it stays, and otherwise the newest candidate. -/
theorem select_eq_ok_iff (hs : s.Filled) :
    s.select constraint installed = .ok spec ↔ s.Stays constraint installed spec ∨
      (¬ ∃ other, s.Stays constraint installed other) ∧
        (s.compatible constraint).head? = some spec := by
  have hstays {kept : PackageSpec} (h : s.Stays constraint installed kept) :
      s.select constraint installed = .ok kept := by
    rw [h.installed]
    refine select_of_preferred h.preferred h.passes fun other hother hversion => ?_
    exact eq_of_version_eq hs hother (mem_compatible.mp h.passes).1 hversion
  by_cases hkept : ∃ kept, s.Stays constraint installed kept
  · obtain ⟨kept, hkept⟩ := hkept
    constructor
    · intro h
      rw [hstays hkept] at h
      cases h
      exact .inl hkept
    · rintro (h | ⟨hnone, -⟩)
      · exact hstays h
      · exact absurd ⟨kept, hkept⟩ hnone
  · have hpreferred : s.preferred (s.compatible constraint) installed = none := by
      rw [Option.eq_none_iff_forall_ne_some]
      exact fun kept h => hkept ⟨kept, stays_of_preferred h⟩
    rw [or_iff_right fun h => hkept ⟨spec, h⟩, and_iff_right hkept]
    cases hhead : (s.compatible constraint).head? with
    | none => simp [select, hpreferred, hhead]
    | some newest => simp [select, hpreferred, hhead]

/-- Where no installed version is preferred, a candidate is selected that no other is above. -/
theorem select_of_newest (hs : s.Filled) (hprefer : s.context.preferInstalled = false)
    (hspec : spec ∈ s.compatible constraint)
    (hnewest : ∀ other ∈ s.compatible constraint, compare other.version spec.version ≠ .gt) :
    s.select constraint installed = .ok spec := by
  refine (select_eq_ok_iff hs).mpr (.inr ⟨?_, ?_⟩)
  · rintro ⟨other, hother⟩
    rw [hother.preferred] at hprefer
    cases hprefer
  · have hdescending : (s.compatible constraint).Pairwise
        fun a b => compare a.version b.version = .gt := descending_compatible hs
    cases hcandidates : s.compatible constraint with
    | nil =>
      rw [hcandidates] at hspec
      cases hspec
    | cons first rest =>
      rw [hcandidates] at hspec hnewest hdescending
      rcases List.mem_cons.mp hspec with rfl | hrest
      · rfl
      · exact absurd ((List.pairwise_cons.mp hdescending).1 spec hrest)
          (hnewest first List.mem_cons_self)

/-- There is a spec to install just if there is a candidate. -/
theorem exists_select_eq_ok_iff :
    (∃ spec, s.select constraint installed = .ok spec) ↔ s.compatible constraint ≠ [] := by
  constructor
  · rintro ⟨spec, h⟩
    exact List.ne_nil_of_mem (mem_compatible_of_select h)
  · intro hne
    cases h : s.select constraint installed with
    | ok spec => exact ⟨spec, rfl⟩
    | error f => exact absurd (compatible_of_select_error h) hne

/-- What a candidate has to pass: the constraint, the target runtime and the target platform as far
as there is one, and the prerelease policy. -/
theorem accepts_iff :
    s.accepts constraint spec = true ↔ constraint.holds spec.version = true ∧
      (∀ runtime, s.context.runtime = some runtime → spec.runtime.holds runtime = true) ∧
      (∀ platform, s.context.platform = some platform →
        spec.platforms.toList = [] ∨ Platform.of platform ∈ spec.platforms.toList) ∧
      (s.context.allowPrerelease = true ∨ spec.prerelease = false) := by
  have hruntime : spec.fitsRuntime s.context = true ↔
      ∀ runtime, s.context.runtime = some runtime → spec.runtime.holds runtime = true := by
    rw [PackageSpec.fitsRuntime, Option.all_eq_true]
    rfl
  have hplatform : spec.fitsPlatform s.context = true ↔
      ∀ platform, s.context.platform = some platform →
        spec.platforms.toList = [] ∨ Platform.of platform ∈ spec.platforms.toList := by
    rw [PackageSpec.fitsPlatform, Option.all_eq_true]
    refine forall₂_congr fun platform _ => ?_
    rw [PackageSpec.supportsPlatform, Bool.or_eq_true]
    refine or_congr ?_ ?_
    · simp [SortedMap.isEmpty, SortedSet.toList, SortedMap.keys]
    · rw [← SortedSet.get?_eq_some_iff_mem, SortedMap.contains, Option.isSome_iff_exists]
      exact Unique.exists_iff
  have hprerelease : spec.fitsPrerelease s.context = true ↔
      (s.context.allowPrerelease = true ∨ spec.prerelease = false) := by
    simp [PackageSpec.fitsPrerelease]
  rw [accepts, Bool.and_eq_true, Bool.and_eq_true, Bool.and_eq_true, hruntime, hplatform,
    hprerelease, and_assoc, and_assoc]

/-- Selection is correct and complete. Of the specs of a map that was filled in any order, the
candidates are those that pass the constraint, the target runtime, the target platform and the
prerelease policy, each once and from the newest on. One is selected just if there is one: the
installed one where installed versions are preferred and it is a candidate, and otherwise the
newest. If none is, the failure names the first filter, in the order of the explanation, after
which no spec is left. -/
theorem selection_exact {s : Selector} (hs : s.Filled)
    (constraint : Constraint) (installed : Option Version) :
    (∀ spec, spec ∈ s.compatible constraint ↔ spec ∈ s.specs ∧
      constraint.holds spec.version = true ∧
      (∀ runtime, s.context.runtime = some runtime → spec.runtime.holds runtime = true) ∧
      (∀ platform, s.context.platform = some platform →
        spec.platforms.toList = [] ∨ Platform.of platform ∈ spec.platforms.toList) ∧
      (s.context.allowPrerelease = true ∨ spec.prerelease = false)) ∧
    (s.compatible constraint).Nodup ∧
    (s.compatible constraint).Pairwise (fun a b => compare a.version b.version = .gt) ∧
    ((∃ spec, s.select constraint installed = .ok spec) ↔ s.compatible constraint ≠ []) ∧
    (∀ spec, s.select constraint installed = .ok spec ↔ s.Stays constraint installed spec ∨
      (¬ ∃ other, s.Stays constraint installed other) ∧
        (s.compatible constraint).head? = some spec) ∧
    ∀ filter, s.emptied? constraint = some filter ↔
      ∃ f, s.select constraint installed = .error f ∧ f.filter = filter := by
  have hdescending : (s.compatible constraint).Pairwise
      fun a b => compare a.version b.version = .gt := descending_compatible hs
  refine ⟨fun spec => ?_, ?_, hdescending, exists_select_eq_ok_iff,
    fun spec => select_eq_ok_iff hs, fun filter => emptied?_eq_some_iff⟩
  · rw [mem_compatible, accepts_iff]
  · refine hdescending.imp fun {a b} hgt heq => ?_
    rw [heq, Std.ReflOrd.compare_self] at hgt
    cases hgt

/-- A version of a package that runs everywhere. -/
def tool (version : Version) : PackageSpec := PackageSpec.new "tool" version

/-- A release that is installed, and a candidate of the next one that is added in two spellings. -/
def toolCalls : List Registry.Call :=
  [.add (tool ⟨2, 0, 0, some "rc.01", none⟩), .install (tool (.release 1 4 0)),
    .add (tool ⟨2, 0, 0, some "rc.1", none⟩)]

/-- The choice among these versions, with a preference for the installed one. -/
def tools : Selector :=
  ⟨(Registry.empty.fill toolCalls).versionsOf (PackageName.of "tool"),
    ⟨none, some " linux", true, true⟩⟩

/-- The later spelling of the candidate is the newest one; the installed release is selected where
it is told, and the candidate where its other spelling is told. -/
theorem selection_exact_tools :
    tools.Filled ∧
    tools.compatible .any = [tool ⟨2, 0, 0, some "rc.1", none⟩, tool (.release 1 4 0)] ∧
    tools.select .any (some (.release 1 4 0)) = .ok (tool (.release 1 4 0)) ∧
    tools.select .any (some ⟨2, 0, 0, some "rc.01", none⟩) =
      .ok (tool ⟨2, 0, 0, some "rc.1", none⟩) := by
  have havailable : tools.available =
      (Registry.empty.fill toolCalls).versionsOf (PackageName.of "tool") := rfl
  have hfilled : tools.Filled := fun vs h =>
    Versions.filled_of_versionsOf (havailable.symm.trans h)
  have hcompatible : tools.compatible .any =
      [tool ⟨2, 0, 0, some "rc.1", none⟩, tool (.release 1 4 0)] := by decide +kernel
  refine ⟨hfilled, hcompatible, ?_, ?_⟩
  · refine ((selection_exact hfilled _ _).2.2.2.2.1 _).mpr (.inl ⟨rfl, rfl, ?_⟩)
    rw [hcompatible]
    exact List.mem_cons_of_mem _ List.mem_cons_self
  · refine ((selection_exact hfilled _ _).2.2.2.2.1 _).mpr (.inr ⟨?_, by rw [hcompatible]; rfl⟩)
    rintro ⟨other, hother⟩
    have hmem := hother.passes
    have hinstalled := hother.installed
    rw [hcompatible] at hmem
    rcases List.mem_pair.mp hmem with rfl | rfl
    · exact absurd hinstalled (by decide)
    · exact absurd hinstalled (by decide)

end Selector

end Depsolve
