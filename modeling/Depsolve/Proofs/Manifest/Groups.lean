import Depsolve.Manifest.Basic
import Depsolve.Proofs.Resolver.Spelling

/-!
The groups that a manifest asks for.

A group has to have a usable name, and white space at both ends does not count for that. It is
stored under the normal form of its whole spelling, though, where white space at an end becomes a
dash.

* `toRequirement_eq_ok`: which entries make a requirement, and which one.
* `trim_eq_of_bare`: a spelling whose normal form neither begins nor ends with a dash has no white
  space at its ends. So `normalize_trim_eq_iff` and `isValidName_normalize_iff` tell for which
  usable names it makes no difference.
* `groups_stored_as_spelled`: the groups are stored under usable names just if all of them are
  spelled without white space at their ends, and `groups_stored_untrimmed` shows one that is not.
-/

namespace Depsolve

variable {name : String} {c : Char} {cs : List Char}

/-! ### White space at the ends of names -/

/-- Characters that neither begin nor end with a dash. -/
structure Bare (cs : List Char) : Prop where
  front : cs.head? ≠ some '-'
  back : cs.getLast? ≠ some '-'

theorem isSeparator_of_isBlank (h : Text.isBlank c = true) : isSeparator c = true := by
  rw [isSeparator, h, Bool.or_true]

/-- A separator at the end is written as a dash, unless all that stands in front of it belongs to
a run whose dash is written already. -/
theorem getLast?_normalizeFrom (hc : isSeparator c = true) (cs : List Char) (inRun : Bool) :
    (normalizeFrom inRun (cs ++ [c])).getLast? = some '-' ∨
      (inRun = true ∧ normalizeFrom inRun (cs ++ [c]) = []) := by
  induction cs generalizing inRun with
  | nil => cases inRun <;> simp [normalizeFrom, hc]
  | cons d cs ih =>
    rw [List.cons_append, normalizeFrom]
    split
    · cases inRun with
      | true => simpa using ih true
      | false =>
        rcases ih true with hlast | ⟨-, hnil⟩
        · simp [List.getLast?_cons, hlast]
        · simp [hnil]
    · rcases ih false with hlast | ⟨hrun, -⟩
      · exact .inl (by rw [List.getLast?_append, hlast, Option.some_or])
      · cases hrun

/-- A spelling with a bare normal form has no white space at its ends. -/
theorem trim_eq_of_bare (h : Bare (normalize name).toList) : Text.trim name = name := by
  obtain ⟨hfront, hback⟩ := h
  rw [normalize, String.toList_ofList] at hfront hback
  obtain ⟨front, back, hparts, hfrontBlank, hbackBlank⟩ :=
    Text.exists_eq_append_trimChars name.toList
  have hnoFront : front = [] := by
    cases front with
    | nil => rfl
    | cons c front =>
      have hsep := isSeparator_of_isBlank (hfrontBlank c List.mem_cons_self)
      rw [hparts, List.cons_append, List.cons_append, normalizeFrom, if_pos hsep] at hfront
      exact absurd rfl hfront
  have hnoBack : back = [] := by
    rcases List.eq_nil_or_concat back with hnil | ⟨init, c, rfl⟩
    · exact hnil
    · have hsep := isSeparator_of_isBlank (hbackBlank c (by simp))
      rw [hparts, List.concat_eq_append, ← List.append_assoc] at hback
      rcases getLast?_normalizeFrom hsep (front ++ Text.trimChars name.toList ++ init) false with
        hlast | ⟨hrun, -⟩
      · exact absurd hlast hback
      · cases hrun
  rw [hnoFront, hnoBack, List.nil_append, List.append_nil] at hparts
  rw [Text.trim, ← hparts, String.ofList_toList]

/-- A normal form has no white space that could be taken off its ends. -/
theorem trim_normalize (name : String) : Text.trim (normalize name) = normalize name := by
  have hblank : ∀ c ∈ (normalize name).toList, Text.isBlank c = false := fun c hc =>
    (isSettled_of_mem_normalize hc).not_separator.2.2
  rw [Text.trim, Text.trimChars_of_not_blank hblank, String.ofList_toList]

theorem bare_of_isValidName (h : isValidName name = true) :
    Bare (normalize (Text.trim name)).toList := by
  simp only [isValidName, Bool.and_eq_true, bne_iff_ne] at h
  exact ⟨h.1.2, h.2⟩

/-- A usable name has the normal form of its trimmed spelling just if it is trimmed. -/
theorem normalize_trim_eq_iff (h : isValidName name = true) :
    normalize (Text.trim name) = normalize name ↔ Text.trim name = name := by
  constructor
  · intro hsame
    exact trim_eq_of_bare (hsame ▸ bare_of_isValidName h)
  · intro htrim
    rw [htrim]

/-- The normal form of a usable name is itself a usable name just if the name is trimmed. -/
theorem isValidName_normalize_iff (h : isValidName name = true) :
    isValidName (normalize name) = true ↔ Text.trim name = name := by
  constructor
  · intro hnormal
    have hbare := bare_of_isValidName hnormal
    rw [trim_normalize, normalize_normalize] at hbare
    exact trim_eq_of_bare hbare
  · intro htrim
    rw [isValidName, trim_normalize, normalize_normalize]
    rwa [isValidName, htrim] at h

/-- A package declares the same group under the normal form of a usable name as under its trimmed
spelling, whatever the package, just if the name is trimmed. -/
theorem extra_normalize_eq_iff (h : isValidName name = true) :
    (∀ spec : PackageSpec, spec.extra (normalize name) = spec.extra (Text.trim name)) ↔
      Text.trim name = name := by
  constructor
  · intro hsame
    by_contra htrim
    have hapart : PackageName.of (normalize name) ≠ PackageName.of (Text.trim name) := by
      intro heq
      have htext : normalize (normalize name) = normalize (Text.trim name) :=
        congrArg PackageName.text heq
      rw [normalize_normalize] at htext
      exact htrim ((normalize_trim_eq_iff h).mp htext.symm)
    -- a package with this group alone has none under the normal form
    have hdeclared := hsame ((PackageSpec.new "" (Version.release 0 0 0)).withOptionalDependency
      (Text.trim name) "" Constraint.any)
    simp only [PackageSpec.extra, PackageSpec.withOptionalDependency, SortedMap.get?_insert,
      Std.LawfulEqOrd.compare_eq_iff_eq, if_neg hapart, if_true] at hdeclared
    cases hdeclared
  · intro htrim spec
    have hsame : PackageName.of (normalize name) = PackageName.of (Text.trim name) :=
      PackageName.ext (by rw [htrim]; exact normalize_normalize name)
    rw [PackageSpec.extra, PackageSpec.extra, hsame]

/-! ### Requirements -/

theorem Requirement.extras_of_parse {name constraint : String} {root : Requirement}
    (h : parse name constraint = .ok root) : root.extras = SortedMap.empty := by
  rw [parse, ite_error_eq_ok] at h
  obtain ⟨-, h⟩ := h
  generalize Constraint.parse constraint = read at h
  cases read with
  | error cause => cases h
  | ok c =>
    obtain rfl := Except.ok.inj h
    rfl

theorem Requirement.extras_foldl_withExtra (groups : List String) (root : Requirement) :
    (groups.foldl withExtra root).extras =
      groups.foldl (fun gs g => gs.add (normalize g)) root.extras := by
  induction groups generalizing root with
  | nil => rfl
  | cons group groups ih => exact ih (root.withExtra group)

namespace DependencyEntry

variable {e : DependencyEntry} {root r : Requirement} {field : String} {groups : List String}

/-- Groups are added one after another where the names of all are usable. -/
theorem foldlM_addExtra_eq_ok :
    groups.foldlM (addExtra field) root = .ok r ↔
      (∀ x ∈ groups, isValidName x = true) ∧ r = groups.foldl Requirement.withExtra root := by
  induction groups generalizing root with
  | nil =>
    rw [List.foldlM_nil, List.foldl_nil, and_iff_right fun _ hx => absurd hx List.not_mem_nil]
    exact ⟨fun hsame => (Except.ok.inj hsame).symm, fun hsame => congrArg Except.ok hsame.symm⟩
  | cons x groups ih =>
    rw [List.foldlM_cons, addExtra, List.foldl_cons, List.forall_mem_cons]
    by_cases hvalid : isValidName x = true
    · rw [if_pos hvalid, and_iff_right hvalid]
      exact ih
    · rw [if_neg hvalid]
      exact iff_of_false (fun h => by cases h) fun h => hvalid h.1.1

/-- An entry makes a requirement where its constraint does and its groups have usable names. -/
theorem toRequirement_eq_ok :
    e.toRequirement name = .ok r ↔
      ∃ root, Requirement.parse name e.constraint = .ok root ∧
        (∀ x ∈ e.extras, isValidName x = true) ∧
        r = e.extras.foldl Requirement.withExtra root := by
  rw [toRequirement]
  simp only [bind_eq_ok, foldlM_addExtra_eq_ok]
  refine exists_congr fun root => and_congr_left fun _ => ?_
  cases Requirement.parse name e.constraint <;> simp [Except.mapError]

/-- The groups of an entry are stored under the normal forms of their spellings. -/
theorem mem_extras_of_toRequirement (h : e.toRequirement name = .ok r) {group : String} :
    group ∈ r.extras.toList ↔ ∃ x ∈ e.extras, normalize x = group := by
  obtain ⟨root, hroot, -, rfl⟩ := toRequirement_eq_ok.mp h
  rw [Requirement.extras_foldl_withExtra, SortedSet.mem_toList_foldl_add,
    Requirement.extras_of_parse hroot]
  exact or_iff_right List.not_mem_nil

/-- The groups of a requirement that an entry makes are the normal forms of the spellings, as they
stand. The trimmed spellings have been found usable; they name the stored groups, the stored
groups are usable names, and the packages declare them under the trimmed spellings, just as far as
the groups are spelled without white space at their ends. -/
theorem groups_stored_as_spelled (h : e.toRequirement name = .ok r) :
    (∀ group, group ∈ r.extras.toList ↔ ∃ x ∈ e.extras, normalize x = group) ∧
    (∀ x ∈ e.extras, isValidName x = true ∧
      (isValidName (normalize x) = true ↔ Text.trim x = x) ∧
      ((∀ spec : PackageSpec, spec.extra (normalize x) = spec.extra (Text.trim x)) ↔
        Text.trim x = x)) ∧
    ((∀ group, group ∈ r.extras.toList ↔ ∃ x ∈ e.extras, normalize (Text.trim x) = group) ↔
      ∀ x ∈ e.extras, Text.trim x = x) := by
  obtain ⟨-, -, hvalid, -⟩ := toRequirement_eq_ok.mp h
  refine ⟨fun group => mem_extras_of_toRequirement h, fun x hx => ⟨hvalid x hx,
    isValidName_normalize_iff (hvalid x hx), extra_normalize_eq_iff (hvalid x hx)⟩, ?_⟩
  constructor
  · intro hstored x hx
    -- what is stored for this group is the normal form of a trimmed usable name
    obtain ⟨y, hy, hnormal⟩ :=
      (hstored (normalize x)).mp ((mem_extras_of_toRequirement h).mpr ⟨x, hx, rfl⟩)
    exact trim_eq_of_bare (hnormal ▸ bare_of_isValidName (hvalid y hy))
  · intro htrim group
    rw [mem_extras_of_toRequirement h]
    refine exists_congr fun x => and_congr_right fun hx => ?_
    rw [htrim x hx]

/-- The charts with two groups, one of them with a blank on each side. -/
def charts : DependencyEntry := .detailed (some "^2.1") ["Excel", " pdf "]

/-- The requirement that the charts make. -/
def chartsRoot : Requirement :=
  ((Requirement.new "charts" (Constraint.mk [⟨.caret, ⟨2, some 1, none, none⟩⟩])).withExtra
    "Excel").withExtra " pdf "

/-- The group with the blanks is stored under a name with a dash on each side. -/
theorem groups_stored_as_spelled_charts :
    charts.toRequirement "charts" = .ok chartsRoot ∧
    chartsRoot.extras.toList = ["-pdf-", "excel"] ∧
    (∀ group, group ∈ chartsRoot.extras.toList ↔
      ∃ x ∈ charts.extras, normalize x = group) ∧
    (isValidName (normalize " pdf ") = true ↔ Text.trim " pdf " = " pdf ") ∧
    (isValidName (normalize "Excel") = true ↔ Text.trim "Excel" = "Excel") := by
  have hroot : charts.toRequirement "charts" = .ok chartsRoot := by decide +kernel
  obtain ⟨hstored, hnames, -⟩ := groups_stored_as_spelled hroot
  exact ⟨hroot, by decide +kernel, hstored, (hnames " pdf " (by simp [charts, extras])).2.1,
    (hnames "Excel" (by simp [charts, extras])).2.1⟩

/-- White space around the name of a group makes it another name, which is not usable and under
which no package declares the group. -/
theorem groups_stored_untrimmed :
    ¬ ∀ (name : String) (e : DependencyEntry) (r : Requirement),
      e.toRequirement name = .ok r →
      (∀ group, group ∈ r.extras.toList ↔ ∃ x ∈ e.extras, normalize (Text.trim x) = group) ∧
      ∀ group ∈ r.extras.toList, isValidName group = true := by
  intro h
  obtain ⟨hstored, -⟩ := h "charts" (.detailed none [" pdf "])
    ((Requirement.new "charts" Constraint.any).withExtra " pdf ") (by decide +kernel)
  obtain ⟨x, hx, hnormal⟩ := (hstored "-pdf-").mp (by decide +kernel)
  obtain rfl : x = " pdf " := by simpa [extras] using hx
  exact absurd hnormal (by decide +kernel)

end DependencyEntry

end Depsolve
