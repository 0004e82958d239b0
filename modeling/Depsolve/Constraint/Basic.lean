import Depsolve.Version.Basic

/-!
Constraints on versions. A constraint is a list of clauses that all have to hold; a
clause has an operator and a version that may leave out its last components.

The ordering operators compare by precedence. The range operators allow what is not
below their bound and is below `Comparator.upperBound?`, the next version at which a
fixed component changes; where that version does not fit, there is no upper bound.
-/

namespace Depsolve

/-- How a clause compares a version with its bound. -/
inductive Operator where
  | exact
  | notEqual
  | greater
  | greaterEq
  | less
  | lessEq
  | tilde
  | caret
  | compatible
  | wildcard
  deriving DecidableEq

/-- A version that may leave out its last components. -/
structure PartialVersion where
  major : UInt64
  minor : Option UInt64
  patch : Option UInt64
  prerelease : Option String
  deriving DecidableEq

/-- One clause of a constraint. -/
structure Comparator where
  op : Operator
  version : PartialVersion
  deriving DecidableEq

/-- Clauses that all have to hold. -/
structure Constraint where
  comparators : List Comparator
  deriving DecidableEq

namespace PartialVersion

/-- The version with zero for each component left out. -/
def lower (p : PartialVersion) : Version :=
  ⟨p.major, p.minor.getD 0, p.patch.getD 0, p.prerelease, none⟩

/-- Whether a version agrees in the components given and in the prerelease tag. -/
def agrees (p : PartialVersion) (v : Version) : Bool :=
  v.major == p.major && p.minor.all (v.minor == ·) && p.patch.all (v.patch == ·) &&
    v.prerelease == p.prerelease

/-- All components of a version. -/
def ofVersion (v : Version) : PartialVersion :=
  ⟨v.major, some v.minor, some v.patch, v.prerelease⟩

end PartialVersion

/-- The word after this one, if it fits. -/
def nextWord? (w : UInt64) : Option UInt64 :=
  if w.toNat + 1 < UInt64.size then some (w + 1) else none

/-- The first release above all versions with this major component. -/
def nextMajor? (major : UInt64) : Option Version :=
  (nextWord? major).map (Version.release · 0 0)

/-- The first release above all versions with these two components; the largest minor
component carries into the major one. -/
def nextMinor? (major minor : UInt64) : Option Version :=
  match nextWord? minor with
  | some minor => some (Version.release major minor 0)
  | none => nextMajor? major

/-- The first release above all versions with these components; the largest patch
component carries into the minor one. -/
def nextPatch? (major minor patch : UInt64) : Option Version :=
  match nextWord? patch with
  | some patch => some (Version.release major minor patch)
  | none => nextMinor? major minor

namespace Comparator

/-- The clause that holds of every version. -/
def any : Comparator := ⟨.wildcard, 0, none, none, none⟩

/-- The exclusive upper bound of a range operator: a tilde fixes the components up to the
minor one, a caret those up to the first that is not zero, and a compatible release all
but the last. -/
def upperBound? (c : Comparator) : Option Version :=
  let v := c.version
  match c.op with
  | .tilde =>
    match v.minor with
    | some minor => nextMinor? v.major minor
    | none => nextMajor? v.major
  | .caret =>
    if v.major = 0 then
      match v.minor, v.patch with
      | some minor, some patch =>
        if minor = 0 then nextPatch? 0 0 patch else nextMinor? 0 minor
      | some minor, none => nextMinor? 0 minor
      | none, _ => nextMajor? v.major
    else nextMajor? v.major
  | .compatible =>
    match v.patch with
    | some _ => nextMinor? v.major (v.minor.getD 0)
    | none => nextMajor? v.major
  | _ => none

/-- Whether a version lies below the upper bound, if there is one. -/
def belowUpperBound (c : Comparator) (v : Version) : Bool :=
  c.upperBound?.all fun upper => v.precedence upper == .lt

/-- Whether the clause holds of a version. -/
def holds (c : Comparator) (v : Version) : Bool :=
  let order := v.precedence c.version.lower
  match c.op with
  | .wildcard => true
  | .exact => c.version.agrees v
  | .notEqual => !c.version.agrees v
  | .greater => order == .gt
  | .greaterEq => order != .lt
  | .less => order == .lt
  | .lessEq => order != .gt
  | .tilde | .caret | .compatible => order != .lt && c.belowUpperBound v

end Comparator

namespace Constraint

/-- The constraint that holds of every version. -/
def any : Constraint := ⟨[Comparator.any]⟩

instance : Inhabited Constraint := ⟨any⟩

/-- The constraint that holds of a version and of those that differ in the build tag. -/
def exactly (v : Version) : Constraint := ⟨[⟨.exact, .ofVersion v⟩]⟩

/-- Whether every clause holds of a version. -/
def holds (r : Constraint) (v : Version) : Bool := r.comparators.all (·.holds v)

/-- Whether every clause is a wildcard. -/
def isAny (r : Constraint) : Bool := r.comparators.all (·.op == .wildcard)

end Constraint

end Depsolve
