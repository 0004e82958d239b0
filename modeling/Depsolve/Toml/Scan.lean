/-!
Scanning of TOML texts. A scanner reads something at the front of the characters that are
left; when it fails, it gives back the characters that are left at the fault.
-/

namespace Depsolve.Toml

/-- What a scanner comes to: a value and the characters after it, or those at the fault. -/
abbrev Scanned (α : Type) := Except (List Char) (α × List Char)

/-- A way to read something at the front of a text. -/
abbrev Scanner (α : Type) := List Char → Scanned α

/-- The number of bytes that characters take up. -/
def byteCount (cs : List Char) : Nat := (cs.map Char.utf8Size).foldr (· + ·) 0

/-! ### Blanks, comments and line ends -/

/-- White space inside a line. -/
def isBlank (c : Char) : Bool := c == ' ' || c == '\t'

/-- A character that texts and comments may hold as it is: all but the control characters,
of which the tab is allowed. -/
def isPlain (c : Char) : Bool := c == '\t' || (0x20 ≤ c.toNat && c.toNat != 0x7f)

/-- The characters after blanks. -/
def skipBlanks (cs : List Char) : List Char := cs.dropWhile isBlank

/-- The characters after a line break, if there is one. -/
def newline? : List Char → Option (List Char)
  | '\n' :: cs => some cs
  | '\r' :: '\n' :: cs => some cs
  | _ => none

/-- The characters after a comment, if there is one. -/
def skipComment : List Char → List Char
  | '#' :: cs => cs.dropWhile isPlain
  | cs => cs

/-- The rest of a line that holds nothing more: blanks, a comment and the line break, or
the end of the text. -/
def endLine : Scanner Unit := fun cs =>
  match skipComment (skipBlanks cs) with
  | [] => .ok ((), [])
  | rest =>
    match newline? rest with
    | some after => .ok ((), after)
    | none => .error rest

/-- The characters after blanks, comments and line breaks; `inComment` tells that they
begin inside a comment. -/
def skipLines (inComment : Bool) : List Char → List Char
  | [] => []
  | '\n' :: cs => skipLines false cs
  | '\r' :: '\n' :: cs => skipLines false cs
  | c :: cs =>
    if inComment then if isPlain c then skipLines true cs else c :: cs
    else if isBlank c then skipLines false cs
    else if c = '#' then skipLines true cs
    else c :: cs

/-! ### Repetition -/

/-- A character that has to come next. -/
def expect (c : Char) : Scanner Unit
  | d :: cs => if d = c then .ok ((), cs) else .error (d :: cs)
  | [] => .error []

/-- Whether a character comes next. -/
def startsWith (c : Char) : List Char → Bool
  | d :: _ => d == c
  | [] => false

/-- The values that a scanner reads one after another up to the end of the text or to a
fault, and the characters that are left at the fault, if there is one. -/
def readAll {α : Type} (scan : Scanner α) (cs : List Char) : List α × Option (List Char) :=
  if cs.isEmpty then ([], none)
  else match scan cs with
    | .error fault => ([], some fault)
    | .ok (a, rest) =>
      if rest.length < cs.length then
        let (as, fault) := readAll scan rest
        (a :: as, fault)
      else ([], some cs)
termination_by cs.length

/-- The values that a scanner reads as long as `continues` finds where the next begins. -/
def readWhile {α : Type} (continues : List Char → Option (List Char)) (scan : Scanner α)
    (cs : List Char) : Scanned (List α) :=
  match continues cs with
  | none => .ok ([], cs)
  | some next =>
    match scan next with
    | .error fault => .error fault
    | .ok (a, rest) =>
      if rest.length < cs.length then
        (readWhile continues scan rest).map fun (as, rest) => (a :: as, rest)
      else .error cs
termination_by cs.length

end Depsolve.Toml
