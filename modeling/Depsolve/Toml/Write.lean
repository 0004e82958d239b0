import Depsolve.Toml.Value

/-!
The written form of TOML keys, texts and arrays. A text takes the first form that can hold
it without escapes, where forms on one line and double quotes are preferred; a text that no
form can hold so is escaped.
-/

namespace Depsolve.Toml

/-- A control character other than the tab and the line feed. -/
def isControl (c : Char) : Bool :=
  (c.toNat < 0x20 && c != '\t' && c != '\n') || c.toNat == 0x7f

/-- The digits of a code below 256 to base sixteen, in capital letters. -/
def hexPair (n : Nat) : List Char :=
  [(Nat.digitChar (n / 16)).toUpper, (Nat.digitChar (n % 16)).toUpper]

/-- The length of the longest run of a character. -/
def longestRun (c : Char) (cs : List Char) : Nat :=
  (cs.foldl (fun (best, run) d =>
    let run := if d = c then run + 1 else 0
    (max best run, run)) (0, 0)).1

/-- One character between double quotes on one line. -/
def escapeChar (c : Char) : List Char :=
  match c with
  | '\x08' => ['\\', 'b']
  | '\t' => ['\\', 't']
  | '\n' => ['\\', 'n']
  | '\x0c' => ['\\', 'f']
  | '\r' => ['\\', 'r']
  | '"' => ['\\', '"']
  | '\\' => ['\\', '\\']
  | c => if isControl c then ['\\', 'u', '0', '0'] ++ hexPair c.toNat else [c]

/-- Characters between three double quotes, `quotes` of which stand next to each other in
front: line feeds stay, and every third quote in a row is escaped. -/
def escapeLines (quotes : Nat) : List Char → List Char
  | [] => []
  | '\n' :: cs => '\n' :: escapeLines 0 cs
  | '"' :: cs =>
    if quotes = 2 then '\\' :: '"' :: escapeLines 0 cs else '"' :: escapeLines (quotes + 1) cs
  | c :: cs => escapeChar c ++ escapeLines 0 cs

/-- A text in double quotes on one line. -/
def basicChars (cs : List Char) : List Char := '"' :: cs.flatMap escapeChar ++ ['"']

/-- A text in single quotes on one line. -/
def literalChars (cs : List Char) : List Char := '\'' :: cs ++ ['\'']

/-- The line feed in front of a text of several lines. -/
def leadingNewline (cs : List Char) : List Char := if cs.contains '\n' then ['\n'] else []

/-- A text in three double quotes. -/
def basicLinesChars (cs : List Char) : List Char :=
  ['"', '"', '"'] ++ leadingNewline cs ++ escapeLines 0 cs ++ ['"', '"', '"']

/-- A text in three single quotes. -/
def literalLinesChars (cs : List Char) : List Char :=
  ['\'', '\'', '\''] ++ leadingNewline cs ++ cs ++ ['\'', '\'', '\'']

/-- A text as a value. -/
def textChars (cs : List Char) : List Char :=
  let clean := !cs.any isControl
  let oneLine := !cs.contains '\n'
  if clean && oneLine && !cs.contains '\\' && !cs.contains '"' then basicChars cs
  else if clean && oneLine && !cs.contains '\'' then literalChars cs
  else if clean && !cs.contains '\\' && longestRun '"' cs < 3 then basicLinesChars cs
  else if clean && longestRun '\'' cs < 3 then literalLinesChars cs
  else if oneLine then basicChars cs
  else basicLinesChars cs

/-- A key: bare if it can be, else in quotes. -/
def keyChars (cs : List Char) : List Char :=
  let clean := !cs.any isControl && !cs.contains '\n'
  if !cs.isEmpty && cs.all isBareChar then cs
  else if clean && !cs.contains '\\' && !cs.contains '"' then basicChars cs
  else if clean && !cs.contains '\'' then literalChars cs
  else basicChars cs

/-- An array of texts, on one line if it has at most one. -/
def textsChars : List String → List Char
  | [] => ['[', ']']
  | [s] => '[' :: textChars s.toList ++ [']']
  | texts =>
    '[' :: '\n' :: texts.flatMap (fun s => "    ".toList ++ textChars s.toList ++ [',', '\n'])
      ++ [']']

/-- A line with a key and a value. -/
def entryChars (key : String) (value : List Char) : List Char :=
  keyChars key.toList ++ " = ".toList ++ value ++ ['\n']

/-- The header of a table. -/
def headerChars (path : List String) : List Char :=
  '[' :: List.intercalate ['.'] (path.map fun key => keyChars key.toList) ++ [']', '\n']

end Depsolve.Toml
