import Depsolve.Toml.Moment
import Depsolve.Toml.Number
import Depsolve.Toml.Table
import Depsolve.Toml.Text

/-!
TOML keys and values. Arrays and inline tables stand inside each other at most 79 levels
deep, and a dotted key has at most 79 parts.
-/

namespace Depsolve.Toml

/-- How many bytes of a text of `size` bytes stand in front of the characters left. -/
def placeOf (size : Nat) (left : List Char) : Nat := size - byteCount left

/-- How deep containers may stand, and how long dotted keys may be. -/
def maxLevels : Nat := 79

/-! ### Keys -/

/-- A character of a key without quotes. -/
def isBareChar (c : Char) : Bool := c.isAlphanum || c == '-' || c == '_'

/-- Whether a key can begin here. -/
def beginsKey : List Char → Bool
  | c :: _ => isBareChar c || c == '"' || c == '\''
  | [] => false

/-- One part of a dotted key: bare or in quotes. -/
def keyText : Scanner (List Char)
  | '"' :: cs => basicText cs
  | '\'' :: cs => literalText cs
  | cs =>
    let bare := cs.takeWhile isBareChar
    if bare.isEmpty then .error cs else .ok (bare, cs.dropWhile isBareChar)

/-- One part of a dotted key with the blanks around it. -/
def keyPart (size : Nat) : Scanner Key := fun cs =>
  let cs := skipBlanks cs
  (keyText cs).map fun (text, rest) =>
    (⟨String.ofList text, placeOf size cs⟩, skipBlanks rest)

/-- The characters after a dot behind which the key goes on. -/
def afterDot? : List Char → Option (List Char)
  | '.' :: cs => if beginsKey (skipBlanks cs) then some cs else none
  | _ => none

/-- A dotted key. -/
def dottedKey (size : Nat) : Scanner DottedKey := fun cs =>
  match keyPart size cs with
  | .error fault => .error fault
  | .ok (first, rest) =>
    match readWhile afterDot? (keyPart size) rest with
    | .error fault => .error fault
    | .ok (others, rest) =>
      if others.length < maxLevels then
        let parts := first :: others
        .ok (⟨parts.dropLast, parts.getLast (by simp [parts])⟩, rest)
      else .error cs

/-! ### Containers -/

/-- The characters after a comma behind which an array goes on. -/
def afterItem? : List Char → Option (List Char)
  | ',' :: cs =>
    match skipLines false cs with
    | [] => none
    | c :: rest => if c = ']' then none else some (c :: rest)
  | _ => none

/-- An item of an array with the blanks, comments and line breaks around it. -/
def arrayItem (value : Scanner Datum) : Scanner Datum := fun cs =>
  (value (skipLines false cs)).map fun (d, rest) => (d, skipLines false rest)

/-- An array, whose opening bracket is read. A comma may stand behind the last item. -/
def arrayItems (value : Scanner Datum) (cs : List Char) :
    Except (List Char) (List Datum × List Char) := do
  if startsWith ']' (skipLines false cs) then
    return ([], (skipLines false cs).drop 1)
  let (first, rest) ← arrayItem value cs
  let (others, rest) ← readWhile afterItem? (arrayItem value) rest
  let rest := if startsWith ',' rest then skipLines false (rest.drop 1) else rest
  let (_, rest) ← expect ']' rest
  return (first :: others, rest)

/-- A key and its value, as they stand between commas in an inline table. -/
def inlineEntry (size : Nat) (value : Scanner Datum) (cs : List Char) :
    Except (List Char) ((DottedKey × Datum) × List Char) := do
  let (key, rest) ← dottedKey size cs
  let (_, rest) ← expect '=' rest
  let (d, rest) ← value (skipBlanks rest)
  return ((key, d), skipBlanks rest)

/-- The characters after a comma behind which an inline table goes on. -/
def afterEntry? : List Char → Option (List Char)
  | ',' :: cs => if beginsKey (skipBlanks cs) then some cs else none
  | _ => none

/-- The entries of an inline table, whose opening brace is read. No comma may stand behind
the last one. -/
def inlineEntries (size : Nat) (value : Scanner Datum) (cs : List Char) :
    Except (List Char) (List (DottedKey × Datum) × List Char) := do
  if beginsKey (skipBlanks cs) then
    let (first, rest) ← inlineEntry size value cs
    let (others, rest) ← readWhile afterEntry? (inlineEntry size value) rest
    let (_, rest) ← expect '\x7d' rest
    return (first :: others, rest)
  else
    let (_, rest) ← expect '\x7d' (skipBlanks cs)
    return ([], rest)

/-- An inline table, whose opening brace is read. -/
def inlineTable (size : Nat) (value : Scanner Datum) (cs : List Char) :
    Except (List Char) (Datum × List Char) := do
  let (entries, rest) ← inlineEntries size value cs
  match (Table.empty .defined 0).defineAll entries with
  | .ok t => return (.mapping (Table.entryData t.entries), rest)
  | .error _ => throw cs

/-! ### Values -/

/-- A value without a mark; `nested` reads the values inside containers, where there may be
more. -/
def unmarkedValue (size : Nat) (nested : Option (Scanner Datum)) (cs : List Char) :
    Scanned Datum :=
  match text? cs with
  | some scanned => scanned.map fun (s, rest) => (.text (String.ofList s), rest)
  | none =>
    match cs with
    | '[' :: rest =>
      match nested with
      | some value => (arrayItems value rest).map fun (ds, rest) => (.sequence false ds, rest)
      | none => .error cs
    | '\x7b' :: rest =>
      match nested with
      | some value => inlineTable size value rest
      | none => .error cs
    | 't' :: 'r' :: 'u' :: 'e' :: rest => .ok (.bool true, rest)
    | 'f' :: 'a' :: 'l' :: 's' :: 'e' :: rest => .ok (.bool false, rest)
    | cs => (moment? cs).getD (number cs)

/-- A value with at most so many levels of containers, marked with its place. -/
def value (size : Nat) : Nat → Scanner Datum
  | 0 => fun cs => mark cs (unmarkedValue size none cs)
  | levels + 1 => fun cs => mark cs (unmarkedValue size (some (value size levels)) cs)
where
  /-- The value with the place where it begins. -/
  mark (cs : List Char) (scanned : Scanned Datum) : Scanned Datum :=
    scanned.map fun (d, rest) => (.marked (placeOf size cs) d, rest)

end Depsolve.Toml
