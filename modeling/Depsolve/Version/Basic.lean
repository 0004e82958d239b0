import Depsolve.Text.Digits
import Depsolve.Text.Split

/-!
Versions and their order.

A version has three numeric components, an optional prerelease tag and an optional build
tag. Its precedence looks at the components first; a release stands above its
prereleases, and two prerelease tags are compared identifier by identifier. The order
`compare` refines precedence by the build tag, so that it is total on all versions.
-/

namespace Depsolve

/-- A version `major.minor.patch-prerelease+build`. -/
structure Version where
  major : UInt64
  minor : UInt64
  patch : UInt64
  prerelease : Option String
  build : Option String
  deriving DecidableEq

/-- One piece of a prerelease tag between its dots. -/
structure Identifier where
  chars : List Char
  deriving DecidableEq

namespace Identifier

/-- The word that a numeric identifier denotes. One plus sign in front is read over, as in
any numeral of a word. -/
def number? (i : Identifier) : Option UInt64 :=
  match i.chars with
  | '+' :: digits => Text.word? digits
  | digits => Text.word? digits

/-- Numeric identifiers come first. -/
def isTextual (i : Identifier) : Bool := i.number?.isNone

/-- The value of a numeric identifier. -/
def magnitude (i : Identifier) : Nat := (i.number?.getD 0).toNat

/-- The characters of an identifier that is not numeric. -/
def spelling (i : Identifier) : List Char := if i.isTextual then i.chars else []

/-- Numeric identifiers compare by value and stand below all others, which compare by
their characters. -/
instance : Ord Identifier :=
  ⟨compareLex (compareOn isTextual) (compareLex (compareOn magnitude) (compareOn spelling))⟩

instance : Std.TransOrd Identifier :=
  inferInstanceAs (Std.TransCmp
    (compareLex (compareOn isTextual) (compareLex (compareOn magnitude) (compareOn spelling))))

end Identifier

namespace Version

/-- The release with these components. -/
def release (major minor patch : UInt64) : Version := ⟨major, minor, patch, none, none⟩

/-- Whether the version carries a prerelease tag. -/
def isPrerelease (v : Version) : Bool := v.prerelease.isSome

/-- A release stands above its prereleases. -/
def isRelease (v : Version) : Bool := v.prerelease.isNone

/-- The pieces of the prerelease tag. -/
def identifiers (v : Version) : List Identifier :=
  match v.prerelease with
  | some tag => (Text.splitOn '.' tag.toList).map Identifier.mk
  | none => []

/-- Precedence: the components, then release over prerelease, then the identifiers of the
two tags, where a tag that is cut short stands below the longer one. -/
def precedence : Version → Version → Ordering :=
  compareLex (compareOn major) <| compareLex (compareOn minor) <| compareLex (compareOn patch) <|
    compareLex (compareOn isRelease) (compareOn identifiers)

instance : Std.TransCmp precedence :=
  inferInstanceAs (Std.TransCmp (compareLex (compareOn major) <| compareLex (compareOn minor) <|
    compareLex (compareOn patch) <| compareLex (compareOn isRelease) (compareOn identifiers)))

/-- Precedence first, then the build tag, where no tag stands below any. -/
instance : Ord Version := ⟨compareLex precedence (compareOn build)⟩

instance : Std.TransOrd Version :=
  inferInstanceAs (Std.TransCmp (compareLex precedence (compareOn build)))

end Version

end Depsolve
