import Depsolve.Toml.Scan

/-!
TOML texts: in one pair of quotes on one line, or in three over several lines; double
quotes with escapes, single ones without.
-/

namespace Depsolve.Toml

/-- A value with a character in front of its text. -/
def consChar (c : Char) (scanned : Scanned (List Char)) : Scanned (List Char) :=
  scanned.map fun (cs, rest) => (c :: cs, rest)

/-! ### Escapes -/

/-- The value of a digit to base sixteen. -/
def hexValue? (c : Char) : Option Nat :=
  if c.isDigit then some (c.toNat - '0'.toNat)
  else if 'a' ≤ c ∧ c ≤ 'f' then some (c.toNat - 'a'.toNat + 10)
  else if 'A' ≤ c ∧ c ≤ 'F' then some (c.toNat - 'A'.toNat + 10)
  else none

/-- The character with the number that digits to base sixteen denote. -/
def hexChar? (digits : List Char) : Option Char := do
  let n ← digits.foldlM (fun n c => (hexValue? c).map (16 * n + ·)) 0
  if n < 0xd800 || (0xdfff < n && n < 0x110000) then some (Char.ofNat n) else none

/-- The character that a letter stands for after a backslash. -/
def unescape? : Char → Option Char
  | 'b' => some '\x08'
  | 't' => some '\t'
  | 'n' => some '\n'
  | 'f' => some '\x0c'
  | 'r' => some '\r'
  | '"' => some '"'
  | '\\' => some '\\'
  | _ => none

/-! ### One line -/

/-- A text in double quotes, the first of which is read. -/
def basicText : Scanner (List Char)
  | [] => .error []
  | '"' :: cs => .ok ([], cs)
  | '\\' :: 'u' :: a :: b :: c :: d :: cs =>
    match hexChar? [a, b, c, d] with
    | some x => consChar x (basicText cs)
    | none => .error (a :: b :: c :: d :: cs)
  | '\\' :: 'U' :: a :: b :: c :: d :: e :: f :: g :: h :: cs =>
    match hexChar? [a, b, c, d, e, f, g, h] with
    | some x => consChar x (basicText cs)
    | none => .error (a :: b :: c :: d :: e :: f :: g :: h :: cs)
  | '\\' :: x :: cs =>
    match unescape? x with
    | some x => consChar x (basicText cs)
    | none => .error (x :: cs)
  | c :: cs => if isPlain c && c != '\\' then consChar c (basicText cs) else .error (c :: cs)

/-- A text in single quotes, the first of which is read. -/
def literalText : Scanner (List Char)
  | [] => .error []
  | '\'' :: cs => .ok ([], cs)
  | c :: cs => if isPlain c then consChar c (literalText cs) else .error (c :: cs)

/-! ### Several lines -/

/-- Whether nothing but blanks is left of the line. -/
def endsLine (cs : List Char) : Bool := (newline? (skipBlanks cs)).isSome

/-- A text in three double quotes, which are read. Up to two quotes may stand in front of
the closing ones. A backslash at the end of a line takes all white space after it away;
`joining` tells that there is such a backslash in front. -/
def basicLines (joining : Bool) : Scanner (List Char)
  | [] => .error []
  | '"' :: '"' :: '"' :: '"' :: '"' :: cs => .ok (['"', '"'], cs)
  | '"' :: '"' :: '"' :: '"' :: cs => .ok (['"'], cs)
  | '"' :: '"' :: '"' :: cs => .ok ([], cs)
  | '\r' :: '\n' :: cs => if joining then basicLines true cs else consChar '\n' (basicLines false cs)
  | '\\' :: 'u' :: a :: b :: c :: d :: cs =>
    match hexChar? [a, b, c, d] with
    | some x => consChar x (basicLines false cs)
    | none => .error (a :: b :: c :: d :: cs)
  | '\\' :: 'U' :: a :: b :: c :: d :: e :: f :: g :: h :: cs =>
    match hexChar? [a, b, c, d, e, f, g, h] with
    | some x => consChar x (basicLines false cs)
    | none => .error (a :: b :: c :: d :: e :: f :: g :: h :: cs)
  | '\\' :: x :: cs =>
    match unescape? x with
    | some x => consChar x (basicLines false cs)
    | none => if endsLine (x :: cs) then basicLines true (x :: cs) else .error (x :: cs)
  | c :: cs =>
    if joining && (isBlank c || c == '\n') then basicLines true cs
    else if c == '\n' || (isPlain c && c != '\\') then consChar c (basicLines false cs)
    else .error (c :: cs)

/-- A text in three single quotes, which are read. Up to two quotes may stand in front of
the closing ones. -/
def literalLines : Scanner (List Char)
  | [] => .error []
  | '\'' :: '\'' :: '\'' :: '\'' :: '\'' :: cs => .ok (['\'', '\''], cs)
  | '\'' :: '\'' :: '\'' :: '\'' :: cs => .ok (['\''], cs)
  | '\'' :: '\'' :: '\'' :: cs => .ok ([], cs)
  | '\r' :: '\n' :: cs => consChar '\n' (literalLines cs)
  | c :: cs =>
    if c == '\n' || isPlain c then consChar c (literalLines cs) else .error (c :: cs)

/-- The characters after a line break at the front, which does not belong to the text. -/
def dropNewline (cs : List Char) : List Char := (newline? cs).getD cs

/-- A text of any kind, and whether there is one at all. -/
def text? : List Char → Option (Scanned (List Char))
  | '"' :: '"' :: '"' :: cs => some (basicLines false (dropNewline cs))
  | '"' :: cs => some (basicText cs)
  | '\'' :: '\'' :: '\'' :: cs => some (literalLines (dropNewline cs))
  | '\'' :: cs => some (literalText cs)
  | _ => none

end Depsolve.Toml
