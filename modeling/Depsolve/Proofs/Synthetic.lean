import Depsolve.Proofs.Constraint.Range
import Depsolve.Proofs.Manifest.Groups
import Depsolve.Proofs.Registry.History
import Depsolve.Proofs.Resolver.Extras
import Depsolve.Proofs.Resolver.Wanted
import Depsolve.Proofs.Selection.Filters
import Depsolve.Synthetic

/-!
The made-up tree of packages resolves to the newest version of each of them.

* `mem_childIndices`: every package but the first is asked for by one other, whose index is found
  by division.
* `choose_layered`: the constraints in the tree ask for half of the newest minor component or more,
  so the newest version is chosen for every request.
* `wanted_layered_iff`: from the root on all packages come up, since the way back from any index
  ends at the root.
* `layered_resolves`: the requests get along (`Resolver.Harmonious`), so the resolution succeeds
  and installs each package before the one that asks for it.
-/

namespace Depsolve

/-! ### Releases that differ in the minor component -/

namespace Version

theorem precedence_release_minor (major a b patch : UInt64) :
    (release major a patch).precedence (release major b patch) = compare a b := by
  rw [precedence_eq_stepwise, stepwise]
  simp [release, orderTags]

theorem compare_release_minor (major a b patch : UInt64) :
    compare (release major a patch) (release major b patch) = compare a b := by
  rw [compare_eq_then, ← precedence_eq_stepwise, precedence_release_minor]
  simp [release]

end Version

/-- Under keys that all have one value stand the keys that were put in. -/
theorem SortedMap.mem_entries_foldl_insert {κ α β : Type} [Ord κ] [Std.TransOrd κ]
    [Std.LawfulEqOrd κ] [DecidableEq κ] (key : β → κ) (v : α) (xs : List β) {e : κ × α} :
    e ∈ (xs.foldl (fun m x => m.insert (key x) v) empty).entries ↔ ∃ x ∈ xs, e = (key x, v) := by
  induction xs using List.reverseRecOn with
  | nil => simp [empty]
  | append_singleton xs x ih =>
    rw [List.foldl_append, List.foldl_cons, List.foldl_nil, mem_entries_insert, ih]
    constructor
    · rintro (rfl | ⟨⟨y, hy, rfl⟩, -⟩)
      · exact ⟨x, by simp, rfl⟩
      · exact ⟨y, List.mem_append_left _ hy, rfl⟩
    · rintro ⟨y, hy, rfl⟩
      by_cases hsame : key y = key x
      · exact .inl (by rw [hsame])
      · refine .inr ⟨⟨y, (List.mem_append.mp hy).resolve_right fun hx => ?_, rfl⟩, hsame⟩
        exact hsame (congrArg key (List.mem_singleton.mp hx))

/-- A digit stays as it is in a name. -/
theorem isSettled_of_isDigit {c : Char} (h : c.isDigit = true) : isSettled c := by
  have hdigits : ∀ n < 10, isSeparator (Char.ofNat ('0'.toNat + n)) = false ∧
      Text.lower (Char.ofNat ('0'.toNat + n)) = [Char.ofNat ('0'.toNat + n)] := by decide
  obtain ⟨hlow, hhigh⟩ := Text.isDigit_iff.mp h
  have hsettled := hdigits (c.toNat - '0'.toNat) (by simp only [Char.reduceToNat] at *; omega)
  rwa [Nat.add_sub_cancel' hlow, Char.ofNat_toNat] at hsettled

namespace Synthetic

variable {count fanOut index minor : Nat} {versions : UInt64}

/-! ### Resolvers that specs were registered with -/

theorem foldl_register_eq (specs : List PackageSpec) :
    specs.foldl Resolver.register (Resolver.new Context.default) =
      ⟨Registry.empty.fill (specs.map .add), Context.default⟩ := by
  have hafter : specs.foldl Resolver.register (Resolver.new Context.default) =
      (Resolver.new Context.default).after (specs.map .add) := by
    rw [Resolver.after, List.foldl_map]
    rfl
  rw [hafter, Resolver.after_eq]
  rfl

/-- In the default environment the newest release that satisfies the constraint is chosen. -/
theorem choose_of_newest {calls : List Registry.Call} {name : PackageName}
    {constraint : Constraint} {spec : PackageSpec}
    (hknows : (Registry.empty.fill calls).Knows name spec) (hrelease : spec.prerelease = false)
    (hholds : constraint.holds spec.version = true)
    (hnewest : ∀ other, (Registry.empty.fill calls).Knows name other →
      constraint.holds other.version = true → compare other.version spec.version ≠ .gt) :
    Resolver.choose ⟨Registry.empty.fill calls, Context.default⟩ name constraint = .ok spec := by
  refine Selector.select_of_newest (fun vs hvs => Versions.filled_of_versionsOf hvs) rfl ?_
    fun other hother => ?_
  · refine Selector.mem_compatible.mpr ⟨Resolver.mem_specs_selector.mpr hknows,
      Selector.accepts_iff.mpr ⟨hholds, fun runtime hruntime => ?_, fun platform hplatform => ?_,
        .inr hrelease⟩⟩
    · cases hruntime
    · cases hplatform
  · obtain ⟨hother, haccepts⟩ := Selector.mem_compatible.mp hother
    exact hnewest other (Resolver.mem_specs_selector.mp hother)
      (Selector.holds_of_accepts haccepts)

/-! ### Names -/

theorem toList_packageName (index : Nat) :
    (packageName index).toList = ['p', 'k', 'g', '-'] ++ Nat.toDigits 10 index := by
  simp [packageName]

/-- The names of made-up packages are in normal form. -/
theorem normalize_packageName (index : Nat) :
    normalize (packageName index) = packageName index := by
  have hmark : normalizeFrom false ['p', 'k', 'g', '-'] = ['p', 'k', 'g', '-'] := by
    decide
  have hsettled : ∀ c ∈ (packageName index).toList, isSettled c := by
    intro c hc
    rw [toList_packageName] at hc
    rcases List.mem_append.mp hc with hc | hc
    · rw [← hmark] at hc
      exact isSettled_of_mem_normalizeFrom hc
    · exact isSettled_of_isDigit (Text.isDigit_of_mem_toDigits hc)
  rw [normalize, normalizeFrom_of_settled hsettled, String.ofList_toList]

theorem packageName_injective : Function.Injective packageName := by
  intro i j h
  have hdigits : Nat.toDigits 10 i = Nat.toDigits 10 j := by
    have hlist := congrArg String.toList h
    rwa [toList_packageName, toList_packageName, List.append_cancel_left_eq] at hlist
  rw [← Text.digitsValue_toDigits i, hdigits, Text.digitsValue_toDigits]

theorem of_packageName_inj {i j : Nat} :
    PackageName.of (packageName i) = PackageName.of (packageName j) ↔ i = j := by
  refine ⟨fun h => packageName_injective ?_, congrArg fun i => PackageName.of (packageName i)⟩
  have htext : normalize (packageName i) = normalize (packageName j) :=
    congrArg PackageName.text h
  rwa [normalize_packageName, normalize_packageName] at htext

/-- A made-up package at any version. -/
def request (index : Nat) : Requirement := Requirement.new (packageName index) Constraint.any

theorem parse_request (index : Nat) :
    Requirement.parse (packageName index) "*" = .ok (request index) := by
  have htrim : Text.trim (packageName index) = packageName index := by
    rw [← normalize_packageName, trim_normalize]
  have hnonempty : (packageName index).isEmpty = false := by
    rw [Bool.eq_false_iff, ne_eq, String.isEmpty_iff, ← String.toList_inj, toList_packageName]
    exact List.cons_ne_nil _ _
  have hany : Constraint.parse "*" = .ok Constraint.any := by decide
  simp only [Requirement.parse, htrim, hnonempty, hany]
  rfl

/-- A resolver reads the texts of made-up packages as the requests for them. -/
theorem resolveTexts_request (r : Resolver) (count : Nat) :
    r.resolveTexts ((List.range count).map fun index => (packageName index, "*"))
      SortedMap.empty = .ok (r.resolve ((List.range count).map request)) := by
  have hparse : ((List.range count).map fun index => (packageName index, "*")).mapM
      (fun p => Requirement.parse p.1 p.2) = .ok ((List.range count).map request) := by
    rw [mapM_eq_ok, List.forall₂_map_left_iff, List.forall₂_map_right_iff, List.forall₂_same]
    exact fun index _ => parse_request index
  have hnames : (((List.range count).map request).map (·.name)).Nodup := by
    have hname : (fun root : Requirement => root.name) ∘ request = packageName :=
      funext normalize_packageName
    rw [List.map_map, hname]
    exact List.nodup_range.map packageName_injective
  -- no groups are wanted, so the requests stay as they are
  rw [r.resolveTexts_eq SortedMap.empty hparse hnames, List.map_map]
  rfl

/-! ### The tree -/

/-- Every index but the first is a child of one other. -/
theorem mem_childIndices {child : Nat} (hfanOut : 0 < fanOut) :
    child ∈ childIndices count fanOut index ↔
      child < count ∧ 0 < child ∧ (child - 1) / fanOut = index := by
  simp only [childIndices, List.mem_filter, List.mem_map, List.mem_range, decide_eq_true_eq]
  constructor
  · rintro ⟨⟨step, hstep, rfl⟩, hcount⟩
    refine ⟨hcount, Nat.succ_pos _, ?_⟩
    rw [Nat.add_sub_cancel, Nat.mul_comm, Nat.mul_add_div hfanOut, Nat.div_eq_of_lt hstep,
      Nat.add_zero]
  · rintro ⟨hcount, hpos, rfl⟩
    refine ⟨⟨(child - 1) % fanOut, Nat.mod_lt _ hfanOut, ?_⟩, hcount⟩
    have hdiv := Nat.div_add_mod' (child - 1) fanOut
    omega

theorem parent_lt (hpos : 0 < index) : (index - 1) / fanOut < index := by
  have hle : (index - 1) / fanOut ≤ index - 1 := Nat.div_le_self _ _
  omega

/-! ### Constraints -/

/-- A caret constraint is what its text is read as. -/
theorem parse_caret (major minor : UInt64) :
    Constraint.parse (String.ofList ("^".toList ++ Version.dottedWords [major, minor])) =
      .ok (caret major minor) := by
  have hwellFormed : (caret major minor).WellFormed := {
    nonempty := List.cons_ne_nil _ _
    clauses := fun c hc => by
      rw [List.mem_singleton.mp hc]
      exact .versioned (by decide) ⟨by simp, by simp, by simp⟩ (by simp) }
  have htext : String.ofList ("^".toList ++ Version.dottedWords [major, minor]) =
      (caret major minor).render := by
    simp [Constraint.render, Constraint.chars, caret, Comparator.chars, Comparator.dotted,
      Operator.mark, Operator.allowsWildcard, Version.dottedWords, Version.tagChars,
      List.intercalate]
  rw [htext]
  exact hwellFormed.parse_render

/-- A caret constraint holds of the releases of its major component from its minor one on. -/
theorem holds_caret {low minor : UInt64} (h : low ≤ minor) :
    (caret 1 low).holds (Version.release 1 minor 0) = true := by
  have hlower : (Version.release 1 minor 0).precedence (Version.release 1 low 0) ≠ .lt := by
    rw [Version.precedence_release_minor]
    exact fun hlt => UInt64.not_lt.mpr h (Std.compare_eq_lt.mp hlt)
  have hupper : (Version.release 1 minor 0).precedence (Version.release 2 0 0) = .lt := by
    have hmajor : (1 : UInt64) < 2 := by decide
    exact Version.precedence_eq_lt_iff.mpr (.inl (List.Lex.rel hmajor))
  have hclause : (⟨.caret, 1, some low, none, none⟩ : Comparator).holds
      (Version.release 1 minor 0) = true := by
    refine (Comparator.holds_iff rfl).mpr ⟨hlower, fun upper hbound => ?_⟩
    have hnext : some (Version.release 2 0 0) = some upper := hbound
    cases hnext
    exact hupper
  rw [Constraint.holds, caret, List.all_cons, hclause]
  rfl

/-! ### Specs -/

/-- Only its dependencies tell a spec of the tree from one that has none. -/
theorem layeredSpec_eq (count fanOut index minor : Nat) :
    layeredSpec count fanOut index minor =
      { PackageSpec.new (packageName index) (Version.release 1 (UInt64.ofNat minor) 0) with
        dependencies := (childIndices count fanOut index).foldl
          (fun deps child => deps.insert (PackageName.of (packageName child))
            (caret 1 (UInt64.ofNat (minor / 2)))) SortedMap.empty } := by
  have hfold (children : List Nat) (s : PackageSpec) :
      children.foldl (fun s child => s.withDependency (packageName child)
        (caret 1 (UInt64.ofNat (minor / 2)))) s =
      { s with
        dependencies := children.foldl (fun deps child =>
          deps.insert (PackageName.of (packageName child)) (caret 1 (UInt64.ofNat (minor / 2))))
          s.dependencies } := by
    induction children generalizing s with
    | nil => rfl
    | cons child children ih => exact ih _
  exact hfold _ _

@[simp] theorem name_layeredSpec :
    (layeredSpec count fanOut index minor).name = PackageName.of (packageName index) := by
  rw [layeredSpec_eq]
  rfl

@[simp] theorem version_layeredSpec :
    (layeredSpec count fanOut index minor).version =
      Version.release 1 (UInt64.ofNat minor) 0 := by
  rw [layeredSpec_eq]
  rfl

/-- Minor components that are words order the versions. -/
theorem compare_version_layeredSpec {i j last : Nat} (hminor : minor < versions.toNat)
    (hlast : last < versions.toNat) :
    compare (layeredSpec count fanOut i minor).version (layeredSpec count fanOut j last).version =
      compare minor last := by
  have hwords (a b : UInt64) : compare a b = compare a.toNat b.toNat := by
    simp only [compare, compareOfLessAndEq, UInt64.lt_iff_toNat_lt, ← UInt64.toNat_inj]
  rw [version_layeredSpec, version_layeredSpec, Version.compare_release_minor, hwords,
    UInt64.toNat_ofNat_of_lt' (hminor.trans versions.toNat_lt),
    UInt64.toNat_ofNat_of_lt' (hlast.trans versions.toNat_lt)]

theorem mem_dependencies_layeredSpec {dep : PackageName × Constraint} :
    dep ∈ (layeredSpec count fanOut index minor).dependencies.entries ↔
      ∃ child ∈ childIndices count fanOut index,
        dep = (PackageName.of (packageName child), caret 1 (UInt64.ofNat (minor / 2))) := by
  rw [layeredSpec_eq]
  exact SortedMap.mem_entries_foldl_insert _ _ _

theorem prerelease_layeredSpec : (layeredSpec count fanOut index minor).prerelease = false := by
  rw [layeredSpec_eq]
  rfl

/-! ### The registry -/

/-- The calls that offer the packages of the tree. -/
def layeredCalls (count : Nat) (versions : UInt64) (fanOut : Nat) : List Registry.Call :=
  ((List.range count).flatMap fun index =>
    (List.range versions.toNat).map fun minor => layeredSpec count fanOut index minor).map .add

theorem mem_layeredCalls {c : Registry.Call} :
    c ∈ layeredCalls count versions fanOut ↔ ∃ index < count, ∃ minor < versions.toNat,
      c = .add (layeredSpec count fanOut index minor) := by
  simp only [layeredCalls, List.mem_map, List.mem_flatMap, List.mem_range]
  constructor
  · rintro ⟨spec, ⟨index, hindex, minor, hminor, rfl⟩, rfl⟩
    exact ⟨index, hindex, minor, hminor, rfl⟩
  · rintro ⟨index, hindex, minor, hminor, rfl⟩
    exact ⟨_, ⟨index, hindex, minor, hminor, rfl⟩, rfl⟩

theorem layered_eq (count : Nat) (versions : UInt64) (fanOut : Nat) :
    layered count versions fanOut =
      ⟨Registry.empty.fill (layeredCalls count versions fanOut), Context.default⟩ :=
  foldl_register_eq _

theorem indexed_layered (count : Nat) (versions : UInt64) (fanOut : Nat) :
    (layered count versions fanOut).registry.Indexed := by
  rw [layered_eq]
  exact Registry.indexed_fill _

/-- The registry holds nothing but the versions of the packages. -/
theorem exists_of_knows_layered {name : PackageName} {spec : PackageSpec}
    (h : (layered count versions fanOut).registry.Knows name spec) :
    ∃ index < count, ∃ minor < versions.toNat, spec = layeredSpec count fanOut index minor := by
  rw [layered_eq] at h
  obtain ⟨c, hc, rfl⟩ := Registry.exists_call_of_knows h
  obtain ⟨index, hindex, minor, hminor, rfl⟩ := mem_layeredCalls.mp hc
  exact ⟨index, hindex, minor, hminor, rfl⟩

/-- No version of a package replaces another. -/
theorem knows_layered (hindex : index < count) (hminor : minor < versions.toNat) :
    (layered count versions fanOut).registry.Knows (PackageName.of (packageName index))
      (layeredSpec count fanOut index minor) := by
  rw [layered_eq, ← @name_layeredSpec count fanOut index minor]
  refine Registry.knows_of_get? (Registry.get?_fill_of_added
    (mem_layeredCalls.mpr ⟨index, hindex, minor, hminor, rfl⟩) fun s hs hname hversion => ?_)
  obtain ⟨other, -, last, hlast, hadded⟩ := mem_layeredCalls.mp hs
  cases hadded
  rw [name_layeredSpec, name_layeredSpec, of_packageName_inj] at hname
  rw [compare_version_layeredSpec hminor hlast, Std.compare_eq_iff_eq] at hversion
  rw [hname, hversion]

/-! ### Selection -/

/-- The newest version of a package of the tree. -/
def newest (count : Nat) (versions : UInt64) (fanOut index : Nat) : PackageSpec :=
  layeredSpec count fanOut index (versions.toNat - 1)

theorem text_name_newest :
    (newest count versions fanOut index).name.text = packageName index := by
  rw [newest, name_layeredSpec]
  exact normalize_packageName index

theorem newest_inj {i j : Nat} (h : (newest count versions fanOut i).name =
    (newest count versions fanOut j).name) : i = j := by
  rwa [newest, newest, name_layeredSpec, name_layeredSpec, of_packageName_inj] at h

theorem version_newest (hversions : 0 < versions) :
    (newest count versions fanOut index).version = Version.release 1 (versions - 1) 0 := by
  have hone : 1 ≤ versions := UInt64.le_iff_toNat_le.mpr (UInt64.lt_iff_toNat_lt.mp hversions)
  have hword : UInt64.ofNat (versions.toNat - 1) = versions - 1 := by
    rw [← UInt64.toNat_inj, UInt64.toNat_sub_of_le _ _ hone]
    exact UInt64.toNat_ofNat_of_lt' (lt_of_le_of_lt (Nat.sub_le _ _) versions.toNat_lt)
  rw [newest, version_layeredSpec, hword]

/-- The newest version is chosen under every constraint that it satisfies. -/
theorem choose_layered (hversions : 0 < versions) (hindex : index < count)
    {constraint : Constraint}
    (hholds : constraint.holds (newest count versions fanOut index).version = true) :
    (layered count versions fanOut).choose (PackageName.of (packageName index)) constraint =
      .ok (newest count versions fanOut index) := by
  have hpositive : 0 < versions.toNat := UInt64.lt_iff_toNat_lt.mp hversions
  have hlast : versions.toNat - 1 < versions.toNat := by omega
  have hregistry : (layered count versions fanOut).registry =
      Registry.empty.fill (layeredCalls count versions fanOut) :=
    congrArg Resolver.registry (layered_eq _ _ _)
  rw [layered_eq]
  refine choose_of_newest (hregistry ▸ knows_layered hindex hlast) prerelease_layeredSpec hholds
    fun other hother _ => ?_
  obtain ⟨i, -, minor, hminor, rfl⟩ := exists_of_knows_layered (hregistry ▸ hother)
  rw [newest, compare_version_layeredSpec hminor hlast]
  intro hgt
  have habove : versions.toNat - 1 < minor := Std.compare_eq_gt.mp hgt
  omega

/-! ### The requests -/

/-- The root of the tree, at any version. -/
def layeredRoot : Requirement := Requirement.new (packageName 0) Constraint.any

/-- The root asks for no groups, so what the specs require is all that is in force. -/
theorem mem_dependencies_of_inForce {name : String} {spec : PackageSpec}
    {dep : PackageName × Constraint} (h : InForce [layeredRoot] name spec dep) :
    dep ∈ spec.dependencies.entries := by
  cases h with
  | required hdep => exact hdep
  | extra hroot _ _ hoffers =>
    obtain ⟨group, hgroup, -⟩ := hoffers
    rw [List.mem_singleton.mp hroot] at hgroup
    cases hgroup

section Requests

variable (hcount : 0 < count) (hversions : 0 < versions) (hfanOut : 0 < fanOut)

include hcount hversions in
theorem choose_root :
    (layered count versions fanOut).choose (PackageName.of layeredRoot.name)
      layeredRoot.constraint = .ok (newest count versions fanOut 0) := by
  have hname : PackageName.of layeredRoot.name = PackageName.of (packageName 0) :=
    PackageName.ext (normalize_normalize _)
  rw [hname]
  exact choose_layered hversions hcount rfl

include hversions in
/-- The newest version of a child satisfies what the newest version of its parent asks for. -/
theorem choose_child {child : Nat} (hchild : child ∈ childIndices count fanOut index) :
    (layered count versions fanOut).choose (PackageName.of (packageName child))
      (caret 1 (UInt64.ofNat ((versions.toNat - 1) / 2))) =
        .ok (newest count versions fanOut child) := by
  have hlt : child < count := of_decide_eq_true (List.mem_filter.mp hchild).2
  refine choose_layered hversions hlt ?_
  have hword : versions.toNat - 1 < UInt64.size :=
    lt_of_le_of_lt (Nat.sub_le _ _) versions.toNat_lt
  rw [newest, version_layeredSpec]
  refine holds_caret ((UInt64.ofNat_le_iff_le ?_ hword).mpr (Nat.div_le_self _ _))
  exact lt_of_le_of_lt (Nat.div_le_self _ _) hword

include hversions in
/-- The newest version of a package needs those of its children. -/
theorem needs_newest_iff {spec : PackageSpec} :
    (layered count versions fanOut).Needs [layeredRoot] (newest count versions fanOut index) spec ↔
      ∃ child ∈ childIndices count fanOut index, spec = newest count versions fanOut child := by
  constructor
  · rintro ⟨dep, hforce, hchoose⟩
    obtain ⟨child, hchild, rfl⟩ :=
      mem_dependencies_layeredSpec.mp (mem_dependencies_of_inForce hforce)
    rw [choose_child hversions hchild] at hchoose
    cases hchoose
    exact ⟨child, hchild, rfl⟩
  · rintro ⟨child, hchild, rfl⟩
    exact ⟨_, .required (mem_dependencies_layeredSpec.mpr ⟨child, hchild, rfl⟩),
      choose_child hversions hchild⟩

include hcount hversions hfanOut in
/-- The newest versions of all packages are wanted, and nothing else is. -/
theorem wanted_layered_iff {spec : PackageSpec} :
    (layered count versions fanOut).Wanted [layeredRoot] spec ↔
      ∃ index < count, spec = newest count versions fanOut index := by
  constructor
  · intro h
    induction h with
    | root hroot hchoose =>
      rw [List.mem_singleton.mp hroot, choose_root hcount hversions] at hchoose
      cases hchoose
      exact ⟨0, hcount, rfl⟩
    | dependency _ hforce hchoose ih =>
      obtain ⟨index, -, rfl⟩ := ih
      obtain ⟨child, hchild, rfl⟩ := (needs_newest_iff hversions).mp ⟨_, hforce, hchoose⟩
      exact ⟨child, ((mem_childIndices hfanOut).mp hchild).1, rfl⟩
  · rintro ⟨index, hindex, rfl⟩
    -- On the way from the index to its parent the index goes down until it is the root's.
    induction index using Nat.strong_induction_on with
    | _ index ih =>
      rcases Nat.eq_zero_or_pos index with rfl | hpos
      · exact .root (List.mem_singleton_self _) (choose_root hcount hversions)
      · have hlt : (index - 1) / fanOut < index := parent_lt hpos
        have hchild : index ∈ childIndices count fanOut ((index - 1) / fanOut) :=
          (mem_childIndices hfanOut).mpr ⟨hindex, hpos, rfl⟩
        obtain ⟨dep, hforce, hchoose⟩ := (needs_newest_iff hversions).mpr ⟨index, hchild, rfl⟩
        exact .dependency (ih _ hlt (hlt.trans hindex)) hforce hchoose

include hversions hfanOut in
/-- Along needs the indices rise. -/
theorem exists_later_of_needs {spec : PackageSpec}
    (h : Relation.TransGen ((layered count versions fanOut).Needs [layeredRoot])
      (newest count versions fanOut index) spec) :
    ∃ later, index < later ∧ spec = newest count versions fanOut later := by
  have hstep {i : Nat} {s : PackageSpec}
      (hneeds : (layered count versions fanOut).Needs [layeredRoot]
        (newest count versions fanOut i) s) :
      ∃ later, i < later ∧ s = newest count versions fanOut later := by
    obtain ⟨child, hchild, rfl⟩ := (needs_newest_iff hversions).mp hneeds
    obtain ⟨-, hpos, rfl⟩ := (mem_childIndices hfanOut).mp hchild
    exact ⟨child, parent_lt hpos, rfl⟩
  induction h with
  | single hneeds => exact hstep hneeds
  | tail _ hneeds ih =>
    obtain ⟨middle, hmiddle, rfl⟩ := ih
    obtain ⟨later, hlater, rfl⟩ := hstep hneeds
    exact ⟨later, hmiddle.trans hlater, rfl⟩

include hcount hversions hfanOut in
/-- The requests in the tree get along. -/
theorem harmonious_layered : (layered count versions fanOut).Harmonious [layeredRoot] where
  root root hroot := by
    rw [List.mem_singleton.mp hroot]
    exact ⟨_, choose_root hcount hversions⟩
  dependency a ha dep hforce := by
    obtain ⟨index, -, rfl⟩ := (wanted_layered_iff hcount hversions hfanOut).mp ha
    obtain ⟨child, hchild, rfl⟩ :=
      mem_dependencies_layeredSpec.mp (mem_dependencies_of_inForce hforce)
    exact ⟨_, choose_child hversions hchild⟩
  single a b ha hb hname := by
    obtain ⟨i, -, rfl⟩ := (wanted_layered_iff hcount hversions hfanOut).mp ha
    obtain ⟨j, -, rfl⟩ := (wanted_layered_iff hcount hversions hfanOut).mp hb
    rw [newest_inj hname]
  acyclic a ha hcycle := by
    obtain ⟨index, -, rfl⟩ := (wanted_layered_iff hcount hversions hfanOut).mp ha
    obtain ⟨later, hlater, hsame⟩ := exists_later_of_needs hversions hfanOut hcycle
    exact absurd (newest_inj (congrArg PackageSpec.name hsame)) hlater.ne

include hcount hversions hfanOut in
theorem get?_resolved_layered (hindex : index < count) :
    ((layered count versions fanOut).resolve [layeredRoot]).resolved.get? (packageName index) =
      some (newest count versions fanOut index) := by
  obtain ⟨-, hresolved, -, -⟩ :=
    (harmonious_layered hcount hversions hfanOut).resolve (indexed_layered _ _ _)
  refine (hresolved _ _).mpr ⟨?_, text_name_newest⟩
  exact (wanted_layered_iff hcount hversions hfanOut).mpr ⟨index, hindex, rfl⟩

include hcount hversions hfanOut in
theorem keys_resolved_layered :
    ((layered count versions fanOut).resolve [layeredRoot]).resolved.keys.Perm
      ((List.range count).map packageName) := by
  obtain ⟨-, hresolved, -, -⟩ :=
    (harmonious_layered hcount hversions hfanOut).resolve (indexed_layered _ _ _)
  refine (List.perm_ext_iff_of_nodup (InsertionMap.distinct _)
    (List.nodup_range.map packageName_injective)).mpr fun name => ⟨?_, ?_⟩
  · intro hname
    obtain ⟨spec, hspec⟩ := InsertionMap.mem_keys_iff.mp hname
    obtain ⟨hwanted, rfl⟩ := (hresolved _ _).mp hspec
    obtain ⟨index, hindex, rfl⟩ := (wanted_layered_iff hcount hversions hfanOut).mp hwanted
    exact List.mem_map.mpr ⟨index, List.mem_range.mpr hindex, text_name_newest.symm⟩
  · intro hname
    obtain ⟨index, hindex, rfl⟩ := List.mem_map.mp hname
    exact InsertionMap.mem_keys_of_get?
      (get?_resolved_layered hcount hversions hfanOut (List.mem_range.mp hindex))

include hcount hversions hfanOut in
/-- A package is installed before the one that it is a child of. -/
theorem idxOf_child_lt {child : Nat} (hindex : index < count)
    (hchild : child ∈ childIndices count fanOut index) :
    ((layered count versions fanOut).resolve [layeredRoot]).order.idxOf (packageName child) <
      ((layered count versions fanOut).resolve [layeredRoot]).order.idxOf (packageName index) := by
  obtain ⟨-, -, -, hfirst⟩ :=
    (harmonious_layered hcount hversions hfanOut).resolve (indexed_layered _ _ _)
  have hlt := hfirst _ _ ((wanted_layered_iff hcount hversions hfanOut).mpr ⟨index, hindex, rfl⟩)
    ((needs_newest_iff hversions).mpr ⟨child, hchild, rfl⟩)
  rwa [text_name_newest, text_name_newest] at hlt

end Requests

/-! ### The resolution of the tree -/

/-- A resolver reads the text of the root as the root. -/
theorem resolveTexts_layeredRoot (r : Resolver) :
    r.resolveTexts [(packageName 0, "*")] SortedMap.empty = .ok (r.resolve [layeredRoot]) :=
  resolveTexts_request r 1

/-- Every package but the first has one dependent in the registry, and all versions of that depend
on it. -/
theorem mem_dependencies_layered_iff (hfanOut : 0 < fanOut) (hpos : 0 < index)
    (hindex : index < count) {name : PackageName} {spec : PackageSpec}
    (hknows : (layered count versions fanOut).registry.Knows name spec) :
    PackageName.of (packageName index) ∈ spec.dependencies.keys ↔
      name.text = packageName ((index - 1) / fanOut) := by
  obtain rfl : spec.name = name := (indexed_layered _ _ _).name_of_knows hknows
  obtain ⟨parent, -, minor, -, rfl⟩ := exists_of_knows_layered hknows
  have hname : (layeredSpec count fanOut parent minor).name.text = packageName parent := by
    rw [name_layeredSpec]
    exact normalize_packageName parent
  have hchild : PackageName.of (packageName index) ∈
      (layeredSpec count fanOut parent minor).dependencies.keys ↔
        index ∈ childIndices count fanOut parent := by
    rw [SortedMap.keys, List.mem_map]
    constructor
    · rintro ⟨dep, hdep, hsame⟩
      obtain ⟨child, hchild, rfl⟩ := mem_dependencies_layeredSpec.mp hdep
      rwa [of_packageName_inj.mp hsame] at hchild
    · exact fun hchild => ⟨_, mem_dependencies_layeredSpec.mpr ⟨index, hchild, rfl⟩, rfl⟩
  rw [hchild, mem_childIndices hfanOut, hname, packageName_injective.eq_iff,
    and_iff_right hindex, and_iff_right hpos, eq_comm]

/-- A tree of packages resolves completely. From the text of its root on, each package is chosen
once and at its newest version, without any conflict, and is installed before the only package of
the registry that depends on it. -/
theorem layered_resolves (hcount : 0 < count) (hversions : 0 < versions) (hfanOut : 0 < fanOut) :
    ∃ R, (layered count versions fanOut).resolveTexts [(packageName 0, "*")] SortedMap.empty =
        .ok R ∧
      R.isSuccessful = true ∧
      R.resolved.keys.Perm ((List.range count).map packageName) ∧
      (∀ index < count, ∃ spec, R.resolved.get? (packageName index) = some spec ∧
        (layered count versions fanOut).registry.Knows spec.name spec ∧
        spec.version = Version.release 1 (versions - 1) 0) ∧
      R.order.Perm ((List.range count).map packageName) ∧
      ∀ index, 0 < index → index < count →
        (∀ name spec, (layered count versions fanOut).registry.Knows name spec →
          (PackageName.of (packageName index) ∈ spec.dependencies.keys ↔
            name.text = packageName ((index - 1) / fanOut))) ∧
        R.order.idxOf (packageName index) <
          R.order.idxOf (packageName ((index - 1) / fanOut)) := by
  obtain ⟨hsuccess, -, horder, -⟩ :=
    (harmonious_layered hcount hversions hfanOut).resolve (indexed_layered _ _ _)
  have hkeys := keys_resolved_layered hcount hversions hfanOut
  refine ⟨_, resolveTexts_layeredRoot _, hsuccess, hkeys, fun index hindex => ?_,
    horder.trans hkeys, fun index hpos hindex => ⟨fun name spec hknows => ?_, ?_⟩⟩
  · have hpositive : 0 < versions.toNat := UInt64.lt_iff_toNat_lt.mp hversions
    refine ⟨_, get?_resolved_layered hcount hversions hfanOut hindex, ?_,
      version_newest hversions⟩
    rw [newest, name_layeredSpec]
    exact knows_layered hindex (by omega)
  · exact mem_dependencies_layered_iff hfanOut hpos hindex hknows
  · have hparent : (index - 1) / fanOut < count := (parent_lt hpos).trans hindex
    exact idxOf_child_lt hcount hversions hfanOut hparent
      ((mem_childIndices hfanOut).mpr ⟨hindex, hpos, rfl⟩)

/-- Seven packages in three layers, each with three versions. -/
theorem layered_resolves_seven :
    (0 < 7 ∧ (0 : UInt64) < 3 ∧ 0 < 2) ∧
    ∃ R, (layered 7 3 2).resolveTexts [(packageName 0, "*")] SortedMap.empty = .ok R ∧
      R.isSuccessful = true ∧
      R.resolved.keys.Perm ["pkg-0", "pkg-1", "pkg-2", "pkg-3", "pkg-4", "pkg-5", "pkg-6"] ∧
      (∃ spec, R.resolved.get? (packageName 6) = some spec ∧
        spec.version = Version.release 1 2 0) ∧
      R.order.idxOf (packageName 6) < R.order.idxOf (packageName 2) := by
  have hcount : 0 < 7 := by decide
  have hversions : (0 : UInt64) < 3 := by decide
  have hfanOut : 0 < 2 := by decide
  obtain ⟨R, hR, hsuccess, hkeys, hchosen, -, hfirst⟩ := layered_resolves hcount hversions hfanOut
  obtain ⟨spec, hspec, -, hversion⟩ := hchosen 6 (by decide)
  exact ⟨⟨hcount, hversions, hfanOut⟩, R, hR, hsuccess, hkeys, ⟨spec, hspec, hversion⟩,
    (hfirst 6 (by decide) (by decide)).2⟩

end Synthetic

end Depsolve
