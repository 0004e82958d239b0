import Depsolve.Constraint.Basic
import Depsolve.Version.Text

/-!
The written form of constraints: clauses with commas between them, each an operator in
front of a version. White space around clauses and after operators does not count, no
operator means exact, and the empty text is the constraint that always holds.
-/

namespace Depsolve

namespace PartialVersion

/-- The characters without a final `.*`, and whether it was there. -/
def dropWildcard (cs : List Char) : List Char × Bool :=
  match cs.reverse with
  | '*' :: '.' :: rest => (rest.reverse, true)
  | _ => (cs, false)

/-- The version of a clause, and whether it ends in `.*`. A build tag is not allowed, a
prerelease tag takes all three components, and `.*` stands in place of one. -/
def readChars (input : List Char) : Except VersionError (PartialVersion × Bool) := do
  let (body, wildcard) := dropWildcard input
  if body.contains '+' then
    throw (.invalidBuild (String.ofList input))
  let (core, prerelease) ← Version.splitPrerelease body
  if wildcard && prerelease.isSome then
    throw (.invalidFormat (String.ofList input))
  let numbers ← Version.readComponents core input
  if (wildcard && numbers.length == 3) || (prerelease.isSome && numbers.length < 3) then
    throw (.invalidFormat (String.ofList input))
  return (⟨numbers[0]?.getD 0, numbers[1]?, numbers[2]?, prerelease⟩, wildcard)

end PartialVersion

namespace Operator

/-- The operator at the front of a clause, and what follows it. -/
def split : List Char → Operator × List Char
  | '~' :: '=' :: rest => (.compatible, rest)
  | '=' :: '=' :: rest => (.exact, rest)
  | '!' :: '=' :: rest => (.notEqual, rest)
  | '>' :: '=' :: rest => (.greaterEq, rest)
  | '<' :: '=' :: rest => (.lessEq, rest)
  | '^' :: rest => (.caret, rest)
  | '~' :: rest => (.tilde, rest)
  | '>' :: rest => (.greater, rest)
  | '<' :: rest => (.less, rest)
  | '=' :: rest => (.exact, rest)
  | rest => (.exact, rest)

/-- The mark that a printed clause begins with. -/
def mark : Operator → List Char
  | .exact => ['=', '=']
  | .notEqual => ['!', '=']
  | .greater => ['>']
  | .greaterEq => ['>', '=']
  | .less => ['<']
  | .lessEq => ['<', '=']
  | .tilde => ['~']
  | .caret => ['^']
  | .compatible => ['~', '=']
  | .wildcard => ['*']

/-- Whether the operator asks for agreement, so that its version may end in `.*`. -/
def allowsWildcard (op : Operator) : Bool := op == .exact || op == .notEqual

end Operator

namespace Comparator

/-- The clause that trimmed characters spell; `whole` is the constraint text to report. -/
def readChars (whole clause : List Char) : Except VersionError Comparator :=
  let invalid (reason : String) : VersionError :=
    .invalidConstraint (String.ofList whole) reason
  if clause.isEmpty then .error (invalid "empty clause")
  else if clause = ['*'] then .ok any
  else
    let (op, rest) := Operator.split clause
    let body := Text.trimChars rest
    if body.isEmpty then .error (invalid "missing version after operator")
    else match PartialVersion.readChars body with
      | .error e => .error (invalid e.message)
      | .ok (version, wildcard) =>
        if wildcard && !op.allowsWildcard then
          .error (invalid "'.*' is only allowed with == or !=")
        else if op == .compatible && version.minor.isNone then
          .error (invalid "'~=' needs at least two version components")
        else .ok ⟨op, version⟩

/-- A component with a dot in front, or nothing. -/
def dotted : Option UInt64 → List Char
  | some w => '.' :: Text.wordDecimal w
  | none => []

/-- The characters of a clause. -/
def chars (c : Comparator) : List Char :=
  if c.op == .wildcard then ['*']
  else
    let v := c.version
    c.op.mark ++ Text.wordDecimal v.major ++ dotted v.minor ++ dotted v.patch
      ++ (if c.op.allowsWildcard && v.patch.isNone then ['.', '*'] else [])
      ++ Version.tagChars '-' v.prerelease

/-- The written form of a clause. -/
def render (c : Comparator) : String := String.ofList c.chars

end Comparator

namespace Constraint

/-- The constraint that a text spells. -/
def parse (text : String) : Except VersionError Constraint :=
  let input := Text.trimChars text.toList
  if input.isEmpty || input = ['*'] then .ok any
  else do
    let comparators ← (Text.splitOn ',' input).mapM fun clause =>
      Comparator.readChars input (Text.trimChars clause)
    return ⟨comparators⟩

/-- The characters of a constraint. -/
def chars (r : Constraint) : List Char :=
  List.intercalate [','] (r.comparators.map Comparator.chars)

/-- The written form of a constraint. -/
def render (r : Constraint) : String := String.ofList r.chars

instance : ToString Constraint := ⟨render⟩

end Constraint

end Depsolve
