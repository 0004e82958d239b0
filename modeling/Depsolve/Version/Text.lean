import Depsolve.Text.Blank
import Depsolve.Version.Basic

/-!
The written form of versions. A version text may leave out the last one or two
components, which then are zero, and may begin with the letter `v`; white space at both
ends does not count. Printing writes all three components.
-/

namespace Depsolve

/-- Why a text is no version or no constraint. -/
inductive VersionError where
  /-- The text does not have the shape of a version. -/
  | invalidFormat (input : String)
  /-- A component is no numeral of a word. -/
  | invalidNumber (component : String)
  /-- A prerelease tag has an empty identifier or a foreign character. -/
  | invalidPrerelease (tag : String)
  /-- A build tag has an empty identifier or a foreign character. -/
  | invalidBuild (tag : String)
  /-- A constraint has a clause that is none. -/
  | invalidConstraint (input reason : String)
  deriving DecidableEq

namespace VersionError

/-- The text that reports the error. -/
def message : VersionError → String
  | invalidFormat input => "Invalid version format: " ++ input
  | invalidNumber component => "Invalid number in version: " ++ component
  | invalidPrerelease tag => "Invalid prerelease identifier: " ++ tag
  | invalidBuild tag => "Invalid build metadata: " ++ tag
  | invalidConstraint input reason =>
    "Invalid version constraint '" ++ input ++ "': " ++ reason

end VersionError

namespace Version

/-! ### Parts of a version text -/

/-- A character of an identifier: an ASCII letter, a digit or a dash. -/
def isIdentifierChar (c : Char) : Bool := c.isAlphanum || c == '-'

/-- Whether the characters are identifiers with dots between them. -/
def isTag (cs : List Char) : Bool :=
  (Text.splitOn '.' cs).all fun piece => !piece.isEmpty && piece.all isIdentifierChar

/-- The word that a component denotes. -/
def readComponent (cs : List Char) : Except VersionError UInt64 :=
  match Text.word? cs with
  | some w => .ok w
  | none => .error (.invalidNumber (String.ofList cs))

/-- The one to three components of a version; `input` is the text to report. -/
def readComponents (core input : List Char) : Except VersionError (List UInt64) :=
  let pieces := Text.splitOn '.' core
  if pieces.length > 3 then .error (.invalidFormat (String.ofList input))
  else pieces.mapM readComponent

/-- The text up to the first dash, and the prerelease tag after it. -/
def splitPrerelease (cs : List Char) : Except VersionError (List Char × Option String) :=
  match Text.cutAt '-' cs with
  | some (core, tag) =>
    if isTag tag then .ok (core, some (String.ofList tag))
    else .error (.invalidPrerelease (String.ofList tag))
  | none => .ok (cs, none)

/-- The text up to the first plus sign, and the build tag after it. -/
def splitBuild (cs : List Char) : Except VersionError (List Char × Option String) :=
  match Text.cutAt '+' cs with
  | some (rest, tag) =>
    if isTag tag then .ok (rest, some (String.ofList tag))
    else .error (.invalidBuild (String.ofList tag))
  | none => .ok (cs, none)

/-- The characters without a leading `v`. -/
def dropMark : List Char → List Char
  | 'v' :: cs => cs
  | cs => cs

/-! ### Reading and writing -/

/-- The version that trimmed characters spell. -/
def readChars (input : List Char) : Except VersionError Version := do
  let unmarked := dropMark input
  if unmarked.isEmpty then
    throw (.invalidFormat (String.ofList input))
  let (body, build) ← splitBuild unmarked
  let (core, prerelease) ← splitPrerelease body
  let numbers ← readComponents core input
  return {
    major := numbers[0]?.getD 0
    minor := numbers[1]?.getD 0
    patch := numbers[2]?.getD 0
    prerelease
    build }

/-- The version that a text spells. -/
def parse (text : String) : Except VersionError Version :=
  readChars (Text.trimChars text.toList)

/-- A tag with its mark in front, or nothing. -/
def tagChars (mark : Char) : Option String → List Char
  | some tag => mark :: tag.toList
  | none => []

/-- The characters of a version in full. -/
def chars (v : Version) : List Char :=
  Text.wordDecimal v.major ++ '.' :: Text.wordDecimal v.minor ++ '.' :: Text.wordDecimal v.patch
    ++ tagChars '-' v.prerelease ++ tagChars '+' v.build

/-- The version in full: three components and the tags it has. -/
def render (v : Version) : String := String.ofList v.chars

instance : ToString Version := ⟨render⟩

end Version

end Depsolve
