import Depsolve.Proofs.Constraint.Text
import Depsolve.Proofs.Version.Order

/-!
What the range operators fix.

A tilde, a caret and a compatible release allow the versions between their bound and the next
release at which a fixed component changes. That release is found by adding one to the last fixed
component, with a carry where it is the largest word.

* `below_nextAfter?_iff`: a version stands below the next release just if its front is not above
  the fixed components. So it is for every carry, and also where the next release does not fit.
* `WellFormed.holds_iff_of_isRange`: so a range operator holds of what is not below its bound and
  agrees with it on the fixed components (`Comparator.fixed`), and of the prereleases of its upper
  bound.
* `ranges_exact_on_releases`: no release is of the second sort, so on releases the operators are
  exact.
* `range_holds_of_prerelease_iff`: prereleases are. The upper bound, which disagrees on the fixed
  components, is excluded, but its prereleases stand below it.
-/

namespace Depsolve

/-! ### Components -/

namespace Version

variable {a b u : Version}

/-- The components of a version, the major one first. -/
def components (v : Version) : List UInt64 := [v.major, v.minor, v.patch]

/-- Precedence compares the components first, and then the prerelease tags. -/
theorem precedence_eq_lt_iff :
    a.precedence b = .lt ↔ a.components < b.components ∨
      a.components = b.components ∧ orderTags a.prerelease b.prerelease = .lt := by
  rw [precedence_eq_stepwise, stepwise]
  simp only [Ordering.then_eq_lt, Std.compare_eq_lt, Std.compare_eq_iff_eq, components,
    List.cons_lt_cons_iff, List.not_lt_nil, List.cons.injEq]
  tauto

/-- Below a release are the versions with lower components and its own prereleases. -/
theorem precedence_eq_lt_iff_of_release (hu : u.prerelease = none) :
    a.precedence u = .lt ↔ a.components < u.components ∨
      a.components = u.components ∧ a.isPrerelease = true := by
  rw [precedence_eq_lt_iff, hu]
  cases ha : a.prerelease with
  | none => simp [orderTags, isPrerelease, ha]
  | some tag => simp [orderTags, isPrerelease, ha]

end Version

/-- A row that is not below one that begins with `ws` begins with `ws`, too, unless its front is
above `ws`. -/
theorem prefix_iff_not_lt_take {ws ls vs : List UInt64} (hws : ws <+: ls) (hvs : ¬ vs < ls) :
    ws <+: vs ↔ ¬ ws < vs.take ws.length := by
  induction ws generalizing ls vs with
  | nil => simp
  | cons w ws ih =>
    obtain ⟨rest, rfl⟩ := hws
    cases vs with
    | nil => exact absurd (List.nil_lt_cons w (ws ++ rest)) hvs
    | cons v vs =>
      rw [List.cons_append, List.cons_lt_cons_iff, not_or, not_and] at hvs
      rw [List.cons_prefix_cons, List.length_cons, List.take_succ_cons, List.cons_lt_cons_iff]
      by_cases hw : v = w
      · subst hw
        simpa [UInt64.lt_irrefl] using ih (List.prefix_append ws rest) (hvs.2 rfl)
      · have hlt : w < v := UInt64.lt_of_le_of_ne (UInt64.not_lt.mp hvs.1) (Ne.symm hw)
        simp [hlt, Ne.symm hw]

/-! ### The next release -/

section Next

variable {w next : UInt64} {v u : Version} {ws : List UInt64}

theorem lt_nextWord?_iff (h : nextWord? w = some next) (x : UInt64) : x < next ↔ ¬ w < x := by
  obtain ⟨hfits, hnext⟩ := Option.ite_none_right_eq_some.mp h
  cases hnext
  have hnext : (w + 1).toNat = w.toNat + 1 := by
    rw [UInt64.toNat_add]
    exact Nat.mod_eq_of_lt hfits
  rw [UInt64.lt_iff_toNat_lt, UInt64.lt_iff_toNat_lt, hnext]
  omega

/-- No word is above one that has no next. -/
theorem not_lt_of_nextWord?_eq_none (h : nextWord? w = none) (x : UInt64) : ¬ w < x := by
  have hlast : ¬ w.toNat + 1 < UInt64.size := by
    intro hfits
    simp [nextWord?, hfits] at h
  have hx : x.toNat < UInt64.size := x.toNat_lt
  rw [UInt64.lt_iff_toNat_lt]
  omega

/-- The first release above all versions that begin with some components. -/
def nextAfter? : List UInt64 → Option Version
  | [major] => nextMajor? major
  | [major, minor] => nextMinor? major minor
  | [major, minor, patch] => nextPatch? major minor patch
  | _ => none

theorem below_nextMajor?_iff (major : UInt64) :
    (∀ u, nextMajor? major = some u → v.components < u.components) ↔ ¬ major < v.major := by
  rw [nextMajor?]
  cases hnext : nextWord? major with
  | none => simpa using not_lt_of_nextWord?_eq_none hnext v.major
  | some next =>
    rw [← lt_nextWord?_iff hnext v.major]
    simp [Version.components, Version.release, List.cons_lt_cons_iff]

theorem below_nextMinor?_iff (major minor : UInt64) :
    (∀ u, nextMinor? major minor = some u → v.components < u.components) ↔
      ¬ [major, minor] < [v.major, v.minor] := by
  rw [nextMinor?]
  cases hnext : nextWord? minor with
  | none =>
    -- no version has a larger minor component, so only the major one can be above
    have hlast := not_lt_of_nextWord?_eq_none hnext v.minor
    simpa [List.cons_lt_cons_iff, hlast] using below_nextMajor?_iff major
  | some next =>
    have hlt := lt_nextWord?_iff hnext v.minor
    simp only [Option.some.injEq, forall_eq', Version.components, Version.release,
      List.cons_lt_cons_iff, List.not_lt_nil, UInt64.not_lt_zero, hlt]
    grind

theorem below_nextPatch?_iff (major minor patch : UInt64) :
    (∀ u, nextPatch? major minor patch = some u → v.components < u.components) ↔
      ¬ [major, minor, patch] < v.components := by
  rw [nextPatch?]
  cases hnext : nextWord? patch with
  | none =>
    have hlast := not_lt_of_nextWord?_eq_none hnext v.patch
    simpa [List.cons_lt_cons_iff, hlast, Version.components] using below_nextMinor?_iff major minor
  | some next =>
    have hlt := lt_nextWord?_iff hnext v.patch
    simp only [Option.some.injEq, forall_eq', Version.components, Version.release,
      List.cons_lt_cons_iff, List.not_lt_nil, hlt]
    grind

/-- A version is below the next release, if there is one, just if its front is not above the
components that the next release is computed from. -/
theorem below_nextAfter?_iff (hne : ws ≠ []) (hlength : ws.length ≤ 3) :
    (∀ u, nextAfter? ws = some u → v.components < u.components) ↔
      ¬ ws < v.components.take ws.length := by
  match ws, hne, hlength with
  | [major], _, _ =>
    rw [nextAfter?, below_nextMajor?_iff]
    simp [Version.components, List.cons_lt_cons_iff]
  | [major, minor], _, _ => exact below_nextMinor?_iff major minor
  | [major, minor, patch], _, _ => exact below_nextPatch?_iff major minor patch

/-- The next release begins with other components. -/
theorem not_prefix_of_nextAfter? (hne : ws ≠ []) (hlength : ws.length ≤ 3)
    (hu : nextAfter? ws = some u) : ¬ ws <+: u.components := by
  intro hprefix
  have hbelow : u.components < u.components := by
    refine (below_nextAfter?_iff hne hlength).mpr ?_ u hu
    rw [← List.prefix_iff_eq_take.mp hprefix]
    exact List.lt_irrefl ws
  exact List.lt_irrefl _ hbelow

theorem prerelease_nextMajor? {major : UInt64} (h : nextMajor? major = some u) :
    u.prerelease = none := by
  obtain ⟨next, -, rfl⟩ := Option.map_eq_some_iff.mp h
  rfl

theorem prerelease_nextMinor? {major minor : UInt64} (h : nextMinor? major minor = some u) :
    u.prerelease = none := by
  rw [nextMinor?] at h
  split at h
  · cases h
    rfl
  · exact prerelease_nextMajor? h

theorem prerelease_nextPatch? {major minor patch : UInt64}
    (h : nextPatch? major minor patch = some u) : u.prerelease = none := by
  rw [nextPatch?] at h
  split at h
  · cases h
    rfl
  · exact prerelease_nextMinor? h

theorem prerelease_nextAfter? (h : nextAfter? ws = some u) : u.prerelease = none := by
  unfold nextAfter? at h
  split at h
  · exact prerelease_nextMajor? h
  · exact prerelease_nextMinor? h
  · exact prerelease_nextPatch? h
  · cases h

end Next

/-! ### Fixed components -/

/-- Whether the operator allows a range of versions above its bound. -/
def Operator.isRange (op : Operator) : Bool := op == .tilde || op == .caret || op == .compatible

/-- The words up to the first that is not zero, or all if all are zero. -/
def throughFirstNonzero : List UInt64 → List UInt64
  | [] => []
  | w :: ws => w :: if w = 0 then throughFirstNonzero ws else []

theorem throughFirstNonzero_prefix_self (ws : List UInt64) : throughFirstNonzero ws <+: ws := by
  induction ws with
  | nil => exact List.prefix_rfl
  | cons w ws ih =>
    rw [throughFirstNonzero, List.cons_prefix_cons]
    refine ⟨rfl, ?_⟩
    split
    · exact ih
    · exact List.nil_prefix

namespace PartialVersion

theorem WellFormed.words_cases {p : PartialVersion} (h : p.WellFormed) :
    (p.minor = none ∧ p.patch = none) ∨ (∃ minor, p.minor = some minor ∧ p.patch = none) ∨
      ∃ minor patch, p.minor = some minor ∧ p.patch = some patch := by
  cases hminor : p.minor with
  | none =>
    refine .inl ⟨rfl, ?_⟩
    rw [← Option.not_isSome_iff_eq_none]
    intro hpatch
    simpa [hminor] using h.minor hpatch
  | some minor =>
    cases hpatch : p.patch with
    | none => exact .inr (.inl ⟨minor, rfl, rfl⟩)
    | some patch => exact .inr (.inr ⟨minor, patch, rfl, rfl⟩)

/-- The bound has the components given, and zeros behind them. -/
theorem WellFormed.words_prefix_lower {p : PartialVersion} (h : p.WellFormed) :
    p.words <+: p.lower.components := by
  rcases h.words_cases with ⟨hminor, hpatch⟩ | ⟨minor, hminor, hpatch⟩ |
    ⟨minor, patch, hminor, hpatch⟩ <;>
    simp [words, lower, Version.components, hminor, hpatch]

end PartialVersion

namespace Comparator

variable {c : Comparator} {v u : Version}

/-- The components of its bound that a range operator fixes: a tilde the major one and the minor one
if it is given, a caret those up to the first that is not zero, and a compatible release all that
are given but the last. -/
def fixed (c : Comparator) : List UInt64 :=
  match c.op with
  | .tilde => c.version.words.take 2
  | .caret => throughFirstNonzero c.version.words
  | .compatible => c.version.words.dropLast
  | _ => []

theorem fixed_prefix_words (c : Comparator) : c.fixed <+: c.version.words := by
  unfold fixed
  split
  · exact List.take_prefix _ _
  · exact throughFirstNonzero_prefix_self _
  · exact List.dropLast_prefix _
  · exact List.nil_prefix

theorem length_fixed_le (c : Comparator) : c.fixed.length ≤ 3 :=
  c.fixed_prefix_words.length_le.trans c.version.length_words_le

theorem WellFormed.version (h : c.WellFormed) (hop : c.op.isRange = true) :
    c.version.WellFormed ∧ (c.op = .compatible → c.version.minor.isSome) := by
  cases h with
  | any => cases hop
  | versioned _ hversion hminor => exact ⟨hversion, hminor⟩

theorem WellFormed.fixed_ne_nil (h : c.WellFormed) (hop : c.op.isRange = true) :
    c.fixed ≠ [] := by
  obtain ⟨op, p⟩ := c
  obtain ⟨-, hminor⟩ := h.version hop
  cases op with
  | tilde => simp [fixed, PartialVersion.words]
  | caret => simp [fixed, PartialVersion.words, throughFirstNonzero]
  | compatible =>
    obtain ⟨minor, hminor⟩ := Option.isSome_iff_exists.mp (hminor rfl)
    simp only at hminor
    simp [fixed, PartialVersion.words, hminor]
  | _ => cases hop

theorem WellFormed.fixed_prefix_lower (h : c.WellFormed) (hop : c.op.isRange = true) :
    c.fixed <+: c.version.lower.components :=
  c.fixed_prefix_words.trans (h.version hop).1.words_prefix_lower

section UpperBound

variable {p : PartialVersion}

theorem upperBound?_tilde (h : p.WellFormed) :
    upperBound? ⟨.tilde, p⟩ = nextAfter? (p.words.take 2) := by
  rcases h.words_cases with ⟨hminor, hpatch⟩ | ⟨minor, hminor, hpatch⟩ |
    ⟨minor, patch, hminor, hpatch⟩ <;>
    simp [upperBound?, PartialVersion.words, nextAfter?, hminor, hpatch]

theorem upperBound?_compatible (h : p.WellFormed) (hminor : p.minor.isSome) :
    upperBound? ⟨.compatible, p⟩ = nextAfter? p.words.dropLast := by
  rcases h.words_cases with ⟨hnone, -⟩ | ⟨minor, hminor, hpatch⟩ | ⟨minor, patch, hminor, hpatch⟩
  · rw [hnone] at hminor
    cases hminor
  all_goals simp [upperBound?, PartialVersion.words, nextAfter?, hminor, hpatch]

theorem upperBound?_caret (h : p.WellFormed) :
    upperBound? ⟨.caret, p⟩ = nextAfter? (throughFirstNonzero p.words) := by
  by_cases hmajor : p.major = 0
  · rcases h.words_cases with ⟨hminor, hpatch⟩ | ⟨minor, hminor, hpatch⟩ |
      ⟨minor, patch, hminor, hpatch⟩
    · simp [upperBound?, PartialVersion.words, throughFirstNonzero, nextAfter?, hmajor, hminor,
        hpatch]
    · simp [upperBound?, PartialVersion.words, throughFirstNonzero, nextAfter?, hmajor, hminor,
        hpatch]
    · by_cases hzero : minor = 0 <;>
        simp [upperBound?, PartialVersion.words, throughFirstNonzero, nextAfter?, hmajor, hminor,
          hpatch, hzero]
  · simp [upperBound?, PartialVersion.words, throughFirstNonzero, nextAfter?, hmajor]

end UpperBound

/-- The upper bound is the next release after the fixed components. -/
theorem WellFormed.upperBound?_eq (h : c.WellFormed) (hop : c.op.isRange = true) :
    c.upperBound? = nextAfter? c.fixed := by
  obtain ⟨op, p⟩ := c
  obtain ⟨hversion, hminor⟩ := h.version hop
  cases op with
  | tilde => exact upperBound?_tilde hversion
  | caret => exact upperBound?_caret hversion
  | compatible => exact upperBound?_compatible hversion (hminor rfl)
  | _ => cases hop

theorem holds_iff (hop : c.op.isRange = true) :
    c.holds v = true ↔ v.precedence c.version.lower ≠ .lt ∧
      ∀ u, c.upperBound? = some u → v.precedence u = .lt := by
  have hrange : c.holds v = (v.precedence c.version.lower != .lt && c.belowUpperBound v) := by
    obtain ⟨op, p⟩ := c
    cases op <;> first | rfl | cases hop
  rw [hrange, Bool.and_eq_true, bne_iff_ne, belowUpperBound]
  cases c.upperBound? <;> simp

/-- The bound stands below the upper bound already in its components. -/
theorem WellFormed.lower_lt_upperBound (h : c.WellFormed) (hop : c.op.isRange = true)
    (hupper : c.upperBound? = some u) : c.version.lower.components < u.components := by
  refine (below_nextAfter?_iff (h.fixed_ne_nil hop) c.length_fixed_le).mpr ?_ u
    (h.upperBound?_eq hop ▸ hupper)
  rw [← List.prefix_iff_eq_take.mp (h.fixed_prefix_lower hop)]
  exact List.lt_irrefl _

/-- The upper bound is a release that differs from the bound in a fixed component. -/
theorem WellFormed.upperBound (h : c.WellFormed) (hop : c.op.isRange = true)
    (hupper : c.upperBound? = some u) : u.prerelease = none ∧ ¬ c.fixed <+: u.components := by
  rw [h.upperBound?_eq hop] at hupper
  exact ⟨prerelease_nextAfter? hupper,
    not_prefix_of_nextAfter? (h.fixed_ne_nil hop) c.length_fixed_le hupper⟩

/-- A range operator holds of what is not below its bound and agrees with it on the fixed
components, and of all prereleases of its upper bound. -/
theorem WellFormed.holds_iff_of_isRange (h : c.WellFormed) (hop : c.op.isRange = true) :
    c.holds v = true ↔ (v.precedence c.version.lower ≠ .lt ∧ c.fixed <+: v.components) ∨
      ∃ u, c.upperBound? = some u ∧ v.components = u.components ∧ v.isPrerelease = true := by
  have hagrees (hlower : v.precedence c.version.lower ≠ .lt) :
      c.fixed <+: v.components ↔ ∀ u, c.upperBound? = some u → v.components < u.components := by
    have hlt : ¬ v.components < c.version.lower.components := fun hlt =>
      hlower (Version.precedence_eq_lt_iff.mpr (.inl hlt))
    rw [prefix_iff_not_lt_take (h.fixed_prefix_lower hop) hlt, h.upperBound?_eq hop,
      below_nextAfter?_iff (h.fixed_ne_nil hop) c.length_fixed_le]
  rw [holds_iff hop]
  constructor
  · rintro ⟨hlower, hbelow⟩
    by_cases hfixed : c.fixed <+: v.components
    · exact .inl ⟨hlower, hfixed⟩
    · rw [hagrees hlower] at hfixed
      push Not at hfixed
      obtain ⟨u, hupper, hlt⟩ := hfixed
      have hu := (Version.precedence_eq_lt_iff_of_release (h.upperBound hop hupper).1).mp
        (hbelow u hupper)
      exact .inr ⟨u, hupper, hu.resolve_left hlt⟩
  · rintro (⟨hlower, hfixed⟩ | ⟨u, hupper, heq, hpre⟩)
    · refine ⟨hlower, fun u hupper => Version.precedence_eq_lt_iff.mpr (.inl ?_)⟩
      exact (hagrees hlower).mp hfixed u hupper
    · have hlt : c.version.lower.components < v.components :=
        heq ▸ h.lower_lt_upperBound hop hupper
      refine ⟨fun hlower => ?_, fun u' hupper' => ?_⟩
      · rcases Version.precedence_eq_lt_iff.mp hlower with hlower | ⟨hlower, -⟩
        · exact List.lt_asymm hlt hlower
        · exact List.lt_irrefl _ (hlower ▸ hlt)
      · obtain rfl : u = u' := Option.some.inj (hupper.symm.trans hupper')
        exact (Version.precedence_eq_lt_iff_of_release (h.upperBound hop hupper).1).mpr
          (.inr ⟨heq, hpre⟩)

end Comparator

/-! ### Releases -/

/-- A release is no prerelease of the upper bound. -/
theorem Comparator.WellFormed.holds_iff_of_release {c : Comparator} (h : c.WellFormed)
    (hop : c.op.isRange = true) {v : Version} (hv : v.prerelease = none) :
    c.holds v = true ↔ v.precedence c.version.lower ≠ .lt ∧ c.fixed <+: v.components := by
  rw [h.holds_iff_of_isRange hop, or_iff_left]
  rintro ⟨u, -, -, hpre⟩
  rw [Version.isPrerelease, hv] at hpre
  cases hpre

namespace Constraint

/-- The constraint `~=major.minor`. -/
def compatible (major minor : UInt64) : Constraint :=
  ⟨[⟨.compatible, major, some minor, none, none⟩]⟩

/-- The constraint `>=major.minor,==major.*`. -/
def sinceWithin (major minor : UInt64) : Constraint :=
  ⟨[⟨.greaterEq, major, some minor, none, none⟩, ⟨.exact, major, none, none, none⟩]⟩

variable {major minor : UInt64} {v : Version}

theorem wellFormed_compatible (major minor : UInt64) : (compatible major minor).WellFormed where
  nonempty := List.cons_ne_nil _ _
  clauses c hc := by
    rw [List.mem_singleton.mp hc]
    exact .versioned (by decide) ⟨by simp, by simp, by simp⟩ fun _ => rfl

theorem wellFormed_sinceWithin (major minor : UInt64) : (sinceWithin major minor).WellFormed where
  nonempty := List.cons_ne_nil _ _
  clauses c hc := by
    rcases List.mem_pair.mp hc with rfl | rfl
    · exact .versioned (by decide) ⟨by simp, by simp, by simp⟩ (by simp)
    · exact .versioned (by decide) ⟨by simp, by simp, by simp⟩ (by simp)

theorem parse_compatible (major minor : UInt64) :
    parse (String.ofList ("~=".toList ++ Version.dottedWords [major, minor])) =
      .ok (compatible major minor) := by
  have htext : String.ofList ("~=".toList ++ Version.dottedWords [major, minor]) =
      (compatible major minor).render := by
    simp [render, chars, compatible, Comparator.chars, Comparator.dotted, Operator.mark,
      Operator.allowsWildcard, Version.dottedWords, Version.tagChars, List.intercalate]
  rw [htext]
  exact (wellFormed_compatible major minor).parse_render

theorem parse_sinceWithin (major minor : UInt64) :
    parse (String.ofList (">=".toList ++ Version.dottedWords [major, minor] ++ ",==".toList ++
      Version.dottedWords [major] ++ ".*".toList)) = .ok (sinceWithin major minor) := by
  have htext : String.ofList (">=".toList ++ Version.dottedWords [major, minor] ++ ",==".toList ++
      Version.dottedWords [major] ++ ".*".toList) = (sinceWithin major minor).render := by
    simp [render, chars, sinceWithin, Comparator.chars, Comparator.dotted, Operator.mark,
      Operator.allowsWildcard, Version.dottedWords, Version.tagChars, List.intercalate]
  rw [htext]
  exact (wellFormed_sinceWithin major minor).parse_render

theorem holds_compatible_iff (hv : v.prerelease = none) :
    (compatible major minor).holds v = true ↔ (sinceWithin major minor).holds v = true := by
  have hclause := (wellFormed_compatible major minor).clauses _ List.mem_cons_self
  have hfixed : [major] <+: v.components ↔ v.major = major := by
    simp [Version.components, eq_comm (a := major)]
  have hagrees : (⟨major, none, none, none⟩ : PartialVersion).agrees v = true ↔
      v.major = major := by
    simp [PartialVersion.agrees, hv]
  simp only [holds, compatible, sinceWithin, List.all_cons, List.all_nil, Bool.and_true,
    Bool.and_eq_true]
  rw [hclause.holds_iff_of_release rfl hv]
  simp [Comparator.holds, Comparator.fixed, PartialVersion.words, hfixed, hagrees]

end Constraint

/-- Range operators are exact on releases. A range clause of a constraint that is read holds of a
release just if the release is not below the bound and begins with the components that the
operator fixes; and `~=X.Y` holds of the same releases as `>=X.Y,==X.*`. -/
theorem ranges_exact_on_releases :
    (∀ (text : String) (r : Constraint), Constraint.parse text = .ok r →
      ∀ c ∈ r.comparators, c.op.isRange = true → ∀ v : Version, v.prerelease = none →
        (c.holds v = true ↔
          v.precedence c.version.lower ≠ .lt ∧ c.fixed <+: v.components)) ∧
    ∀ major minor : UInt64, ∃ r s,
      Constraint.parse (String.ofList ("~=".toList ++ Version.dottedWords [major, minor])) =
        .ok r ∧
      Constraint.parse (String.ofList (">=".toList ++ Version.dottedWords [major, minor] ++
        ",==".toList ++ Version.dottedWords [major] ++ ".*".toList)) = .ok s ∧
      ∀ v : Version, v.prerelease = none → (r.holds v = true ↔ s.holds v = true) := by
  constructor
  · intro text r hread c hc hop v hv
    exact ((Constraint.wellFormed_of_parse hread).clauses c hc).holds_iff_of_release hop hv
  · intro major minor
    exact ⟨_, _, Constraint.parse_compatible major minor, Constraint.parse_sinceWithin major minor,
      fun v hv => Constraint.holds_compatible_iff hv⟩

/-- The last patch of `0.0` has no next patch, and the caret in front of it still lets no other
release in; `~=1.4` holds of `1.9.0`. -/
theorem ranges_exact_on_releases_lastPatch :
    ∃ r c, Constraint.parse "^0.0.18446744073709551615" = .ok r ∧ r.comparators = [c] ∧
      c.upperBound? = some (.release 0 1 0) ∧ c.fixed = [0, 0, 18446744073709551615] ∧
      (c.holds (.release 0 1 0) = true ↔ (Version.release 0 1 0).precedence c.version.lower ≠ .lt ∧
        c.fixed <+: (Version.release 0 1 0).components) ∧
      ∃ r s, Constraint.parse "~=1.4" = .ok r ∧ Constraint.parse ">=1.4,==1.*" = .ok s ∧
        (r.holds (.release 1 9 0) = true ↔ s.holds (.release 1 9 0) = true) := by
  have hread : Constraint.parse "^0.0.18446744073709551615" =
      .ok ⟨[⟨.caret, 0, some 0, some 18446744073709551615, none⟩]⟩ := by decide +kernel
  obtain ⟨r, s, hr, hs, hsame⟩ := ranges_exact_on_releases.2 1 4
  exact ⟨_, _, hread, rfl, by decide, by decide,
    ranges_exact_on_releases.1 _ _ hread _ List.mem_cons_self rfl _ rfl, r, s, hr, hs,
    hsame _ rfl⟩

/-! ### Prereleases -/

/-- What a range clause of a constraint that is read lets in of prereleases: those that are not
below the bound and begin with the fixed components, and all prereleases of the upper bound,
which is a release that does not begin with them. -/
theorem range_holds_of_prerelease_iff (text : String) (r : Constraint)
    (hread : Constraint.parse text = .ok r) (c : Comparator) (hc : c ∈ r.comparators)
    (hop : c.op.isRange = true) :
    (∀ v : Version, v.isPrerelease = true → (c.holds v = true ↔
      (v.precedence c.version.lower ≠ .lt ∧ c.fixed <+: v.components) ∨
        ∃ u, c.upperBound? = some u ∧ v.components = u.components)) ∧
    ∀ u, c.upperBound? = some u → u.prerelease = none ∧ ¬ c.fixed <+: u.components := by
  have hclause := (Constraint.wellFormed_of_parse hread).clauses c hc
  refine ⟨fun v hv => ?_, fun u => hclause.upperBound hop⟩
  rw [hclause.holds_iff_of_isRange hop]
  simp [hv]

/-- `~=1.4.5` lets in the prereleases of `1.5.0`. -/
theorem range_holds_of_prerelease_iff_nextMinor :
    ∃ r c v, Constraint.parse "~=1.4.5" = .ok r ∧ r.comparators = [c] ∧
      c.upperBound? = some (.release 1 5 0) ∧ Version.parse "1.5.0-beta" = .ok v ∧
      (c.holds v = true ↔ (v.precedence c.version.lower ≠ .lt ∧ c.fixed <+: v.components) ∨
        ∃ u, c.upperBound? = some u ∧ v.components = u.components) ∧
      ¬ c.fixed <+: (Version.release 1 5 0).components := by
  have hread : Constraint.parse "~=1.4.5" = .ok ⟨[⟨.compatible, 1, some 4, some 5, none⟩]⟩ := by
    decide +kernel
  have hversion : Version.parse "1.5.0-beta" = .ok ⟨1, 5, 0, some "beta", none⟩ := by
    decide +kernel
  have hexact := range_holds_of_prerelease_iff _ _ hread _ List.mem_cons_self rfl
  exact ⟨_, _, _, hread, rfl, by decide, hversion, hexact.1 _ rfl, (hexact.2 _ (by decide)).2⟩

/-- A caret does not stop at its major component: `^1.2.3` holds of `2.0.0-alpha`. -/
theorem caret_admits_next_major :
    ¬ ∀ (text : String) (r : Constraint), Constraint.parse text = .ok r →
      ∀ c ∈ r.comparators, c.op.isRange = true → ∀ (other : String) (v : Version),
        Version.parse other = .ok v → v.isPrerelease = true → c.holds v = true →
          c.fixed <+: v.components := by
  intro hfixed
  have hread : Constraint.parse "^1.2.3" = .ok ⟨[⟨.caret, 1, some 2, some 3, none⟩]⟩ := by
    decide +kernel
  have hversion : Version.parse "2.0.0-alpha" = .ok ⟨2, 0, 0, some "alpha", none⟩ := by
    decide +kernel
  have hholds : Comparator.holds ⟨.caret, 1, some 2, some 3, none⟩
      ⟨2, 0, 0, some "alpha", none⟩ = true := by decide +kernel
  have hprefix := hfixed _ _ hread _ List.mem_cons_self rfl _ _ hversion rfl hholds
  exact absurd hprefix (by decide)

end Depsolve
