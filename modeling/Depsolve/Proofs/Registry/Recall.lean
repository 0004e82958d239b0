import Depsolve.Proofs.Registry.History
import Mathlib.Data.List.Dedup
import Mathlib.Data.List.Nodup

/-!
A registry holds what its calls handed over and nothing else.

* `Version.Rank`: versions that compare equal are one version to the registry. A rank is what they
  have in common, so that such versions can be counted.
* `get?_fill_eq_none_iff` and `mem_keys_available_fill`: what is known is what some call was about.
* `versionPairs` are the names and ranks of the known specs, each once (`nodup_versionPairs`,
  `mem_versionPairs`). Hence the registry has as many versions as its calls are about.
* `fill_recalls` puts the answers, the displaced specs and the numbers together.
-/

namespace Depsolve

/-! ### Versions up to ties -/

namespace Version

variable {v w : Version}

/-- Versions are tied where they compare equal. -/
def ties : Setoid Version where
  r v w := compare v w = .eq
  iseqv := ⟨fun _ => Std.ReflOrd.compare_self, Std.OrientedCmp.eq_symm, Std.TransCmp.eq_trans⟩

/-- A place in the order of the versions, which tied versions share. -/
def Rank : Type := Quotient ties

/-- The place of a version in the order. -/
def rank (v : Version) : Rank := Quotient.mk ties v

theorem rank_eq_rank_iff : v.rank = w.rank ↔ compare v w = .eq :=
  ⟨Quotient.exact, fun h => Quotient.sound h⟩

theorem exists_rank_eq (place : Rank) : ∃ v : Version, v.rank = place := Quotient.exists_rep place

instance : DecidableEq Rank :=
  @Quotient.decidableEq Version ties fun v w => inferInstanceAs (Decidable (compare v w = .eq))

end Version

/-! ### Numbers of distinct elements -/

/-- The number of distinct elements of a row is the length of any row without repetitions that
has the same elements. -/
theorem length_eq_length_dedup {α : Type} [DecidableEq α] {xs ys : List α} (hxs : xs.Nodup)
    (h : ∀ x, x ∈ xs ↔ x ∈ ys) : xs.length = ys.dedup.length := by
  refine List.Perm.length_eq ((List.perm_ext_iff_of_nodup hxs ys.nodup_dedup).mpr fun x => ?_)
  rw [List.mem_dedup]
  exact h x

theorem SortedMap.length_keys {κ α : Type} [Ord κ] (m : SortedMap κ α) : m.keys.length = m.size :=
  List.length_map _

namespace Registry

variable {g : Registry} {calls : List Call} {name : PackageName} {v : Version}
  {spec : PackageSpec}

/-! ### What is known -/

/-- A call says nothing about a name and a version just if it is about another name or a version
that compares different. -/
theorem Call.silent_iff (c : Call) :
    c.added? name v = none ∧ c.offered? name v = none ↔
      ¬ (name = c.spec.name ∧ compare v c.spec.version = .eq) := by
  cases c with
  | add s => simp [added?, offered?, Call.spec]
  | install s => simp [added?, offered?, Call.spec]

theorem get?_empty (name : PackageName) (v : Version) : empty.get? name.text v = none := rfl

theorem installedOf_empty (name : PackageName) : empty.installedOf name = none := rfl

/-- Nothing is known about a name and a version just if no call was about them. -/
theorem get?_fill_eq_none_iff :
    (empty.fill calls).get? name.text v = none ↔
      ∀ c ∈ calls, ¬ (name = c.spec.name ∧ compare v c.spec.version = .eq) := by
  rw [get?_fill, get?_empty, Option.or_none, Option.or_eq_none_iff, List.findSome?_eq_none_iff,
    List.findSome?_eq_none_iff]
  simp only [List.mem_reverse]
  constructor
  · intro h c hc
    exact c.silent_iff.mp ⟨h.1 c hc, h.2 c hc⟩
  · intro h
    exact ⟨fun c hc => (c.silent_iff.mpr (h c hc)).1, fun c hc => (c.silent_iff.mpr (h c hc)).2⟩

theorem exists_get?_fill_iff :
    (∃ spec, (empty.fill calls).get? name.text v = some spec) ↔
      ∃ c ∈ calls, c.spec.name = name ∧ compare c.spec.version v = .eq := by
  rw [← Option.ne_none_iff_exists', ne_eq, get?_fill_eq_none_iff]
  push Not
  refine exists_congr fun c => and_congr_right fun _ => and_congr eq_comm ?_
  exact ⟨Std.OrientedCmp.eq_symm, Std.OrientedCmp.eq_symm⟩

/-- A call makes the name of its spec known, and no other. -/
theorem exists_versionsOf_apply_iff (g : Registry) (c : Call) (name : PackageName) :
    (∃ vs, (g.apply c).versionsOf name = some vs) ↔
      (∃ vs, g.versionsOf name = some vs) ∨ name = c.spec.name := by
  have hinsert : ∀ (installed : SortedMap PackageName PackageSpec) (vs : Versions),
      (∃ known, versionsOf ⟨g.available.insert c.spec.name vs, installed⟩ name = some known) ↔
        (∃ known, g.versionsOf name = some known) ∨ name = c.spec.name := by
    intro installed vs
    rw [versionsOf_insert]
    by_cases hname : name = c.spec.name
    · simp [hname]
    · simp [hname]
  cases c with
  | add s => exact hinsert _ _
  | install s => exact hinsert _ _

theorem exists_versionsOf_fill_iff :
    (∃ vs, (empty.fill calls).versionsOf name = some vs) ↔ ∃ c ∈ calls, c.spec.name = name := by
  induction calls using List.reverseRecOn with
  | nil =>
    constructor
    · rintro ⟨vs, hvs⟩
      cases hvs
    · rintro ⟨c, hc, -⟩
      cases hc
  | append_singleton calls c ih =>
    rw [fill_concat, exists_versionsOf_apply_iff, ih]
    simp only [List.mem_append, List.mem_singleton, or_and_right, exists_or, exists_eq_left,
      eq_comm (a := name)]

/-- The names under which versions are listed are those that the calls are about. -/
theorem mem_keys_available_fill :
    name ∈ (empty.fill calls).available.keys ↔ name ∈ calls.map (·.spec.name) := by
  rw [SortedMap.mem_keys_iff, List.mem_map]
  exact exists_versionsOf_fill_iff

/-- The name for which a call installs a spec. -/
def Call.installedName? : Call → Option PackageName
  | add _ => none
  | install s => some s.name

theorem Call.installed?_eq_none_iff (c : Call) :
    c.installed? name = none ↔ c.installedName? ≠ some name := by
  cases c with
  | add s => simp [installed?, installedName?]
  | install s => simp [installed?, installedName?, eq_comm]

theorem installedOf_fill_eq_none_iff (calls : List Call) (name : PackageName) :
    (empty.fill calls).installedOf name = none ↔ ∀ c ∈ calls, c.installedName? ≠ some name := by
  rw [installedOf_fill_eq, installedOf_empty, Option.or_none, List.findSome?_eq_none_iff]
  simp only [List.mem_reverse, Call.installed?_eq_none_iff]

/-- The names with an installed spec are those for which a call installs one. -/
theorem mem_keys_installed_fill :
    name ∈ (empty.fill calls).installed.keys ↔ name ∈ calls.filterMap Call.installedName? := by
  rw [SortedMap.mem_keys_iff, List.mem_filterMap, ← Option.ne_none_iff_exists']
  refine (not_congr (installedOf_fill_eq_none_iff calls name)).trans ?_
  push Not
  rfl

/-! ### How much is known -/

/-- The known specs by name and rank. -/
def versionPairs (g : Registry) : List (PackageName × Version.Rank) :=
  g.available.entries.flatMap fun e => e.2.keys.map fun v => (e.1, v.rank)

theorem length_versionPairs (g : Registry) : g.versionPairs.length = g.stats.versions := by
  rw [versionPairs, List.length_flatMap, stats, SortedMap.values, List.map_map, List.sum]
  congr 1
  refine List.map_congr_left fun e _ => ?_
  rw [List.length_map, SortedMap.length_keys]
  rfl

/-- No name and rank are listed twice: the names ascend, and so do the versions of each. -/
theorem nodup_versionPairs (g : Registry) : g.versionPairs.Nodup := by
  refine List.nodup_flatMap.mpr ⟨fun e _ => ?_, ?_⟩
  · rw [SortedMap.keys, List.map_map, List.Nodup, List.pairwise_map]
    refine e.2.ascending.imp fun {a b} hlt heq => ?_
    have hties : compare a.1 b.1 = .eq := Version.rank_eq_rank_iff.mp (Prod.ext_iff.mp heq).2
    rw [hlt] at hties
    cases hties
  · refine g.available.ascending.imp fun {a b} hlt => ?_
    intro pair ha hb
    obtain ⟨v, -, rfl⟩ := List.mem_map.mp ha
    obtain ⟨w, -, heq⟩ := List.mem_map.mp hb
    rw [← (Prod.ext_iff.mp heq).1, Std.ReflOrd.compare_self] at hlt
    cases hlt

theorem mem_versionPairs :
    (name, v.rank) ∈ g.versionPairs ↔ ∃ spec, g.get? name.text v = some spec := by
  rw [versionPairs, List.mem_flatMap]
  constructor
  · rintro ⟨⟨known, vs⟩, hvs, hmem⟩
    obtain ⟨w, hw, heq⟩ := List.mem_map.mp hmem
    obtain ⟨rfl, hrank⟩ := Prod.ext_iff.mp heq
    obtain ⟨e, he, rfl⟩ := List.mem_map.mp hw
    refine ⟨e.2, ?_⟩
    rw [← get?_congr (Version.rank_eq_rank_iff.mp hrank), get?_text, versionsOf,
      SortedMap.get?_eq_some_iff.mpr hvs]
    exact SortedMap.get?_of_mem_entries he
  · rintro ⟨spec, hspec⟩
    rw [get?_text, Option.bind_eq_some_iff] at hspec
    obtain ⟨vs, hvs, hspec⟩ := hspec
    obtain ⟨e, he, hties, -⟩ := SortedMap.exists_entry_of_get? hspec
    refine ⟨(name, vs), SortedMap.get?_eq_some_iff.mp hvs, List.mem_map.mpr ⟨e.1, ?_, ?_⟩⟩
    · exact List.mem_map_of_mem he
    · rw [Version.rank_eq_rank_iff.mpr (Std.OrientedCmp.eq_symm hties)]

theorem mem_versionPairs_fill {pair : PackageName × Version.Rank} :
    pair ∈ (empty.fill calls).versionPairs ↔
      pair ∈ calls.map fun c => (c.spec.name, c.spec.version.rank) := by
  obtain ⟨name, place⟩ := pair
  obtain ⟨v, rfl⟩ := Version.exists_rank_eq place
  rw [mem_versionPairs, exists_get?_fill_iff, List.mem_map]
  refine exists_congr fun c => and_congr_right fun _ => ?_
  rw [Prod.mk.injEq, Version.rank_eq_rank_iff]

/-- A registry counts the names that its calls are about, the versions of each of them, where
versions that compare equal are one, and the names that they install specs for. -/
theorem stats_fill (calls : List Call) :
    (empty.fill calls).stats =
      { packages := (calls.map (·.spec.name)).dedup.length
        versions := (calls.map fun c => (c.spec.name, c.spec.version.rank)).dedup.length
        installed := (calls.filterMap Call.installedName?).dedup.length } := by
  have hversions := length_eq_length_dedup (nodup_versionPairs (empty.fill calls))
    fun _ => mem_versionPairs_fill
  have hpackages := length_eq_length_dedup (empty.fill calls).available.nodup_keys
    fun _ => mem_keys_available_fill
  have hinstalled := length_eq_length_dedup (empty.fill calls).installed.nodup_keys
    fun _ => mem_keys_installed_fill
  rw [length_versionPairs] at hversions
  rw [← hversions, ← hpackages, ← hinstalled, List.length_map, List.length_map]
  rfl

/-! ### What a filled registry answers -/

theorem versions_of (g : Registry) (name : String) :
    g.versions name = g.versionsOf (PackageName.of name) := rfl

theorem get?_of (g : Registry) (name : String) (v : Version) :
    g.get? name v = g.get? (PackageName.of name).text v := by
  rw [get?_text]
  rfl

/-- The version that is installed is known, although the known spec may be another one. -/
theorem exists_get?_of_installedOf (h : (empty.fill calls).installedOf name = some spec) :
    ∃ known, (empty.fill calls).get? name.text spec.version = some known := by
  rw [installedOf_fill_eq, installedOf_empty, Option.or_none] at h
  obtain ⟨c, hc, hspec⟩ := List.exists_of_findSome?_eq_some h
  cases c with
  | add s => cases hspec
  | install s =>
    obtain ⟨hname, hs⟩ := Option.ite_none_right_eq_some.mp hspec
    cases hs
    exact exists_get?_fill_iff.mpr
      ⟨.install spec, List.mem_reverse.mp hc, hname.symm, Std.ReflOrd.compare_self⟩

/-- A registry that is filled by calls answers what they said, under every spelling of a name. The
last spec added under a name and a version counts, or else the first one installed. The last spec
installed under a name is the installed one, and its version is known. The versions of a package are
listed in ascending order, each with the spec known under it. A further call hands back what it
displaces: an added spec the one known under its version, an installed one the one installed for
its name. The numbers are those of the distinct names, of the distinct versions under them and of
the distinct names with an installed spec, where versions that compare equal are one. -/
theorem fill_recalls (calls : List Call) :
    (∀ name v, (empty.fill calls).get? name v =
      (calls.reverse.findSome? (Call.added? (PackageName.of name) v)).or
        (calls.findSome? (Call.offered? (PackageName.of name) v))) ∧
    (∀ name, (empty.fill calls).installedOf (PackageName.of name) =
      calls.reverse.findSome? (Call.installed? (PackageName.of name))) ∧
    (∀ name spec, (empty.fill calls).installedOf (PackageName.of name) = some spec →
      ∃ known, (empty.fill calls).get? name spec.version = some known) ∧
    (∀ name vs, (empty.fill calls).versions name = some vs →
      vs.keys.Pairwise (fun v w => compare v w = .lt) ∧
      ∀ v spec, (v, spec) ∈ vs.entries →
        compare v spec.version = .eq ∧ (empty.fill calls).get? name v = some spec) ∧
    (∀ spec, ((empty.fill calls).add spec).2 =
        (empty.fill calls).get? spec.name.text spec.version ∧
      ((empty.fill calls).install spec).2 = (empty.fill calls).installedOf spec.name) ∧
    (empty.fill calls).stats =
      { packages := (calls.map (·.spec.name)).dedup.length
        versions := (calls.map fun c => (c.spec.name, c.spec.version.rank)).dedup.length
        installed := (calls.filterMap Call.installedName?).dedup.length } := by
  refine ⟨?_, ?_, ?_, ?_, ?_, stats_fill calls⟩
  · intro name v
    rw [get?_of, get?_fill, get?_empty, Option.or_none]
  · intro name
    rw [installedOf_fill_eq, installedOf_empty, Option.or_none]
  · intro name spec hinstalled
    rw [get?_of]
    exact exists_get?_of_installedOf hinstalled
  · intro name vs hvs
    have hanswer : ∀ v spec, (v, spec) ∈ vs.entries →
        (empty.fill calls).get? (PackageName.of name).text v = some spec := by
      intro v spec hentry
      rw [get?_text, ← versions_of, hvs]
      exact SortedMap.get?_of_mem_entries hentry
    refine ⟨List.pairwise_map.mpr vs.ascending, fun v spec hentry => ⟨?_, ?_⟩⟩
    · exact (indexed_fill calls).version _ v spec (hanswer v spec hentry)
    · rw [get?_of]
      exact hanswer v spec hentry
  · intro spec
    constructor
    · exact get?_getD_versionsOf (empty.fill calls) spec.name spec.version
    · rfl

end Registry

end Depsolve
