import Depsolve.Constraint.Basic
import Depsolve.Proofs.Version.Order

/-!
Constraints without gaps.

A clause that compares by precedence allows what is above a bound, what is below one, or both, and
an upper bound that does not fit is none. So a constraint of such clauses allows with two versions
all versions between them. A clause that asks for agreement does not: it looks at the prerelease tag
and not at where it stands.

* `Rising`, `Falling` and `Convex` are predicates on versions that are kept upwards, downwards and
  between.
* `Comparator.convex_holds`: each clause is an intersection of a rising and a falling predicate.
* `ordered_constraint_convex`: so all clauses together are convex, and do not tell versions of equal
  precedence apart.
-/

namespace Depsolve

/-- Whether the operator compares by precedence and does not ask for agreement. -/
def Operator.isOrdered : Operator → Bool
  | .greater | .greaterEq | .less | .lessEq | .tilde | .caret | .compatible | .wildcard => true
  | .exact | .notEqual => false

namespace Version

variable {p q : Version → Bool} {a b : Version}

/-! ### Predicates along precedence -/

/-- With a version the predicate holds of all that are not below it. -/
def Rising (p : Version → Bool) : Prop :=
  ∀ a b : Version, (a.precedence b).isLE → p a = true → p b = true

/-- With a version the predicate holds of all that are not above it. -/
def Falling (p : Version → Bool) : Prop :=
  ∀ a b : Version, (a.precedence b).isLE → p b = true → p a = true

/-- With two versions the predicate holds of all that are between them. -/
def Convex (p : Version → Bool) : Prop :=
  ∀ a b c : Version, (a.precedence b).isLE → (b.precedence c).isLE → p a = true → p c = true →
    p b = true

theorem Rising.convex (h : Rising p) : Convex p := fun a b _ hab _ ha _ => h a b hab ha

theorem Falling.convex (h : Falling p) : Convex p := fun _ b c _ hbc _ hc => h b c hbc hc

theorem Convex.and (hp : Convex p) (hq : Convex q) : Convex fun v => p v && q v := by
  intro a b c hab hbc ha hc
  obtain ⟨hpa, hqa⟩ := Bool.and_eq_true_iff.mp ha
  obtain ⟨hpc, hqc⟩ := Bool.and_eq_true_iff.mp hc
  exact Bool.and_eq_true_iff.mpr ⟨hp a b c hab hbc hpa hpc, hq a b c hab hbc hqa hqc⟩

/-- Versions of equal precedence are between each other. -/
theorem Convex.eq_of_precedence (hp : Convex p) (h : a.precedence b = .eq) : p a = p b := by
  have hab : (a.precedence b).isLE := by simp [h]
  have hba : (b.precedence a).isLE := by simp [Std.OrientedCmp.eq_comm.mp h]
  exact Bool.eq_iff_iff.mpr ⟨fun ha => hp a b a hab hba ha ha, fun hb => hp b a b hba hab hb hb⟩

theorem rising_not_below (u : Version) : Rising fun v => v.precedence u != .lt := by
  intro a b hab ha
  rw [bne_iff_ne] at ha ⊢
  exact fun hb => ha (Std.TransCmp.lt_of_isLE_of_lt hab hb)

theorem rising_above (u : Version) : Rising fun v => v.precedence u == .gt := by
  intro a b hab ha
  rw [beq_iff_eq] at ha ⊢
  have hu : u.precedence a = .lt := Std.OrientedCmp.lt_of_gt ha
  exact Std.OrientedCmp.gt_of_lt (Std.TransCmp.lt_of_lt_of_isLE hu hab)

theorem falling_below (u : Version) : Falling fun v => v.precedence u == .lt := by
  intro a b hab hb
  rw [beq_iff_eq] at hb ⊢
  exact Std.TransCmp.lt_of_isLE_of_lt hab hb

theorem falling_not_above (u : Version) : Falling fun v => v.precedence u != .gt := by
  intro a b hab hb
  rw [bne_iff_ne] at hb ⊢
  exact Ordering.isLE_iff_ne_gt.mp (Std.TransCmp.isLE_trans hab (Ordering.isLE_iff_ne_gt.mpr hb))

end Version

open Version (Convex Falling)

/-! ### Clauses and constraints -/

namespace Comparator

/-- Where there is no upper bound, every version is below it. -/
theorem falling_belowUpperBound (c : Comparator) : Falling c.belowUpperBound := by
  intro a b hab hb
  unfold belowUpperBound at hb ⊢
  cases hupper : c.upperBound? with
  | none => rfl
  | some upper =>
    rw [hupper] at hb
    exact Version.falling_below upper a b hab hb

/-- What lies between two versions that an ordered clause allows is allowed, too. -/
theorem convex_holds {c : Comparator} (hop : c.op.isOrdered = true) : Convex c.holds := by
  have hrange : Convex fun v =>
      v.precedence c.version.lower != .lt && c.belowUpperBound v :=
    (Version.rising_not_below c.version.lower).convex.and c.falling_belowUpperBound.convex
  obtain ⟨op, p⟩ := c
  cases op with
  | exact => cases hop
  | notEqual => cases hop
  | greater => exact (Version.rising_above p.lower).convex
  | greaterEq => exact (Version.rising_not_below p.lower).convex
  | less => exact (Version.falling_below p.lower).convex
  | lessEq => exact (Version.falling_not_above p.lower).convex
  | tilde => exact hrange
  | caret => exact hrange
  | compatible => exact hrange
  | wildcard => exact fun _ _ _ _ _ _ _ => rfl

end Comparator

theorem Constraint.convex_holds {r : Constraint}
    (hr : ∀ c ∈ r.comparators, c.op.isOrdered = true) : Convex r.holds := by
  intro a b c hab hbc ha hc
  rw [holds, List.all_eq_true] at ha hc ⊢
  intro clause hclause
  exact Comparator.convex_holds (hr clause hclause) a b c hab hbc (ha clause hclause)
    (hc clause hclause)

/-- A constraint whose clauses all compare by precedence, whatever their bounds are, has no gaps:
with two versions it allows every version between them. So it allows both or none of two versions of
equal precedence, and does not look at build tags. -/
theorem ordered_constraint_convex (r : Constraint)
    (hr : ∀ c ∈ r.comparators, c.op.isOrdered = true) :
    (∀ a b c : Version, a.precedence b ≠ .gt → b.precedence c ≠ .gt →
      r.holds a = true → r.holds c = true → r.holds b = true) ∧
    (∀ a b : Version, a.precedence b = .eq → r.holds a = r.holds b) ∧
    ∀ (a : Version) (build : Option String), r.holds { a with build } = r.holds a := by
  have hconvex := Constraint.convex_holds hr
  refine ⟨fun a b c hab hbc => ?_, fun a b => hconvex.eq_of_precedence, fun a build => ?_⟩
  · exact hconvex a b c (Ordering.isLE_iff_ne_gt.mpr hab) (Ordering.isLE_iff_ne_gt.mpr hbc)
  · have hsame : Version.precedence { a with build } a = a.precedence a := rfl
    exact hconvex.eq_of_precedence (hsame.trans Std.ReflCmp.compare_self)

/-- The caret of the largest major component has no upper bound. Between two releases that it allows
stands a prerelease, which is allowed whatever its build tag is and however its number is padded. -/
theorem ordered_constraint_convex_lastMajor :
    ∃ r : Constraint, r = ⟨[⟨.caret, 18446744073709551615, none, none, none⟩,
        ⟨.greater, 3, some 0, some 0, some "rc.1"⟩, ⟨.wildcard, 0, none, none, none⟩]⟩ ∧
      (∀ c ∈ r.comparators, c.op.isOrdered = true) ∧
      r.holds ⟨18446744073709551615, 0, 1, some "rc.9", some "b"⟩ = true ∧
      r.holds ⟨18446744073709551615, 0, 1, some "rc.9", none⟩ =
        r.holds ⟨18446744073709551615, 0, 1, some "rc.09", none⟩ := by
  have hr : ∀ c ∈ (⟨[⟨.caret, 18446744073709551615, none, none, none⟩,
      ⟨.greater, 3, some 0, some 0, some "rc.1"⟩, ⟨.wildcard, 0, none, none, none⟩]⟩ :
        Constraint).comparators, c.op.isOrdered = true := by decide
  refine ⟨_, rfl, hr, ?_, ?_⟩
  · have hbetween := (ordered_constraint_convex _ hr).1 (.release 18446744073709551615 0 0)
      ⟨18446744073709551615, 0, 1, some "rc.9", some "b"⟩ (.release 18446744073709551615 0 1)
    exact hbetween (by decide +kernel) (by decide +kernel) (by decide +kernel) (by decide +kernel)
  · exact (ordered_constraint_convex _ hr).2.1 _ _ (by decide +kernel)

end Depsolve
