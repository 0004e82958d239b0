import Depsolve.Text.Quoted

/-!
JSON values and their two written forms: `compact` without any space, and `pretty` with
one line for every item and an indent of two spaces a level.
-/

namespace Depsolve

/-- A JSON value. The entries of an object are written in their order. -/
inductive Json where
  | null
  | bool (b : Bool)
  | number (n : Int)
  | text (s : String)
  | array (items : List Json)
  | object (entries : List (String × Json))
  deriving Inhabited

namespace Json

/-! ### Scalars -/

/-- A number below sixteen as a digit to base sixteen. -/
def hexDigit (n : Nat) : Char := Nat.digitChar n

/-- One character as it stands between the quotes: a quote, a backslash and the control
characters are escaped, the latter by a letter where there is one. -/
def escape (c : Char) : List Char :=
  match c with
  | '"' => ['\\', '"']
  | '\\' => ['\\', '\\']
  | '\x08' => ['\\', 'b']
  | '\t' => ['\\', 't']
  | '\n' => ['\\', 'n']
  | '\x0c' => ['\\', 'f']
  | '\r' => ['\\', 'r']
  | c =>
    if c.toNat < 0x20 then
      ['\\', 'u', '0', '0', hexDigit (c.toNat / 16), hexDigit (c.toNat % 16)]
    else [c]

/-- A text between quotes. -/
def quoteChars (s : String) : List Char := '"' :: s.toList.flatMap escape ++ ['"']

/-- An integer. -/
def integerChars : Int → List Char
  | .ofNat n => Nat.toDigits 10 n
  | .negSucc n => '-' :: Nat.toDigits 10 (n + 1)

/-- A truth value. -/
def boolChars (b : Bool) : List Char := if b then "true".toList else "false".toList

/-! ### The compact form -/

mutual

/-- The characters of the compact form. -/
def compactChars : Json → List Char
  | null => "null".toList
  | bool b => boolChars b
  | number n => integerChars n
  | text s => quoteChars s
  | array items => '[' :: compactItems items ++ [']']
  | object entries => '\x7b' :: compactEntries entries ++ ['\x7d']

/-- Items with commas between them. -/
def compactItems : List Json → List Char
  | [] => []
  | [item] => compactChars item
  | item :: items => compactChars item ++ ',' :: compactItems items

/-- Entries with commas between them. -/
def compactEntries : List (String × Json) → List Char
  | [] => []
  | [(key, value)] => quoteChars key ++ ':' :: compactChars value
  | (key, value) :: entries =>
    quoteChars key ++ ':' :: compactChars value ++ ',' :: compactEntries entries

end

/-- The compact form. -/
def compact (j : Json) : String := String.ofList j.compactChars

/-! ### The pretty form -/

/-- A new line at some level. -/
def newLine (level : Nat) : List Char := '\n' :: List.replicate (2 * level) ' '

mutual

/-- The characters of the pretty form at some level. -/
def prettyChars (level : Nat) : Json → List Char
  | null => "null".toList
  | bool b => boolChars b
  | number n => integerChars n
  | text s => quoteChars s
  | array [] => ['[', ']']
  | array items => '[' :: prettyItems (level + 1) items ++ newLine level ++ [']']
  | object [] => ['\x7b', '\x7d']
  | object entries => '\x7b' :: prettyEntries (level + 1) entries ++ newLine level ++ ['\x7d']

/-- Items on lines of their own with commas between them. -/
def prettyItems (level : Nat) : List Json → List Char
  | [] => []
  | [item] => newLine level ++ prettyChars level item
  | item :: items => newLine level ++ prettyChars level item ++ ',' :: prettyItems level items

/-- Entries on lines of their own with commas between them. -/
def prettyEntries (level : Nat) : List (String × Json) → List Char
  | [] => []
  | [(key, value)] => newLine level ++ quoteChars key ++ ':' :: ' ' :: prettyChars level value
  | (key, value) :: entries =>
    newLine level ++ quoteChars key ++ ':' :: ' ' :: prettyChars level value
      ++ ',' :: prettyEntries level entries

end

/-- The pretty form. -/
def pretty (j : Json) : String := String.ofList (j.prettyChars 0)

end Json

end Depsolve
