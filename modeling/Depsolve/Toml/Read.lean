import Depsolve.Toml.Value

/-!
TOML documents: lines with a key and a value, and headers that open tables. Every table
takes the lines up to the next header.
-/

namespace Depsolve.Toml

/-- The header of a table, or of one more table under a repeated header. -/
structure Header where
  repeated : Bool
  key : DottedKey
  place : Nat

/-- A line of a document that holds something. -/
inductive Line where
  | blank
  | entry (key : DottedKey) (d : Datum)
  | header (h : Header)

/-- A header and the entries below it. -/
structure Section where
  header : Header
  entries : List (DottedKey × Datum)

/-! ### Lines -/

/-- The header that opens with one bracket, or with two if it is repeated; they are read. -/
def headerLine (size : Nat) (repeated : Bool) (begin cs : List Char) :
    Except (List Char) (Line × List Char) := do
  let (key, rest) ← dottedKey size cs
  let (_, rest) ← expect ']' rest
  let (_, rest) ← if repeated then expect ']' rest else pure ((), rest)
  let (_, rest) ← endLine rest
  return (.header ⟨repeated, key, placeOf size begin⟩, rest)

/-- A line with a key and a value. -/
def entryLine (size : Nat) (cs : List Char) : Except (List Char) (Line × List Char) := do
  let (key, rest) ← dottedKey size cs
  let (_, rest) ← expect '=' rest
  let (d, rest) ← value size maxLevels (skipBlanks rest)
  let (_, rest) ← endLine rest
  return (.entry key d, rest)

/-- One line. -/
def line (size : Nat) : Scanner Line := fun cs =>
  match skipBlanks cs with
  | [] => .ok (.blank, [])
  | '[' :: '[' :: rest => headerLine size true ('[' :: '[' :: rest) rest
  | '[' :: rest => headerLine size false ('[' :: rest) rest
  | c :: rest =>
    if c = '#' ∨ c = '\n' ∨ c = '\r' then (endLine (c :: rest)).map fun (_, rest) => (.blank, rest)
    else entryLine size (c :: rest)

/-! ### Tables -/

/-- The entries in front of the first header, and the sections. -/
def sections : List Line → List (DottedKey × Datum) × List Section
  | [] => ([], [])
  | .blank :: lines => sections lines
  | .entry key d :: lines =>
    let (entries, rest) := sections lines
    ((key, d) :: entries, rest)
  | .header h :: lines =>
    let (entries, rest) := sections lines
    ([], ⟨h, entries⟩ :: rest)

/-- One more table under a repeated header. -/
def addRepeated (s : Section) (parent : Table) : Except Nat Table := do
  let key := s.header.key.last.text
  let (first, earlier) ← match parent.get? key with
    | none => pure (s.header.place, [])
    | some (.tables first latest earlier) => pure (first, latest :: earlier)
    | some _ => throw s.header.place
  let table ← (Table.empty .defined s.header.place).defineAll s.entries
  return parent.put key (.tables first table earlier)

/-- A table under its header. A table that is implied so far is defined now, and comes last
in its parent. -/
def addTable (s : Section) (parent : Table) : Except Nat Table := do
  let key := s.header.key.last.text
  let known ← match parent.get? key with
    | none => pure []
    | some (.table t) => if t.origin = .implied then pure t.entries else throw s.header.place
    | some _ => throw s.header.place
  let table ← (Table.mk .defined s.header.place known).defineAll s.entries
  return (parent.erase key).put key (.table table)

/-- The document with one more section. -/
def addSection (root : Table) (s : Section) : Except Nat Table :=
  root.update false s.header.place (if s.header.repeated then addRepeated s else addTable s)
    s.header.key.path

/-- The document that lines make up, or the place of the first header or key that clashes
with what stands in front of it. -/
def assemble (lines : List Line) : Except Nat Table := do
  let (entries, rest) := sections lines
  rest.foldlM addSection (← (Table.empty .defined 0).defineAll entries)

/-- The characters without a byte order mark in front. -/
def dropMark : List Char → List Char
  | c :: cs => if c = '\ufeff' then cs else c :: cs
  | [] => []

/-- The keys and values of a text, or the place in bytes of the first fault: of a header or
key that clashes with what stands in front of it, or of a character that cannot stand where
it does. -/
def read (text : String) : Except Nat Datum := do
  let cs := text.toList
  let size := byteCount cs
  let (lines, fault) := readAll (line size) (dropMark cs)
  let root ← assemble lines
  match fault with
  | some left => throw (placeOf size left)
  | none => return .mapping (Table.entryData root.entries)

end Depsolve.Toml
