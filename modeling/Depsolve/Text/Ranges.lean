/-!
Sets of code points written as inclusive ranges, the form in which character
properties are tabulated.
-/

namespace Depsolve.Text

/-- A set of code points: the union of its inclusive ranges. -/
abbrev Ranges := List (Nat × Nat)

namespace Ranges

/-- Whether a code point lies in one of the ranges. -/
def contains (rs : Ranges) (n : Nat) : Bool :=
  rs.any fun r => r.1 ≤ n && n ≤ r.2

theorem contains_iff {rs : Ranges} {n : Nat} :
    rs.contains n = true ↔ ∃ r ∈ rs, r.1 ≤ n ∧ n ≤ r.2 := by
  simp [contains]

end Ranges

end Depsolve.Text
