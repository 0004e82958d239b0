import Depsolve.Document.Datum

/-!
TOML tables while a document is read. A table comes about in three ways: a header or
braces define it, the header of a table inside it implies it, or dotted keys make it. A
table can be defined once; dotted keys go on with tables that dotted keys have made, and
pass through implied ones, but do not change tables that are defined. What clashes with
this is refused with the place where it stands. Keys keep the order in which they first
came.
-/

namespace Depsolve.Toml

/-- A key and the place where it stands. -/
structure Key where
  text : String
  place : Nat

/-- A key that leads through tables: the keys in front of the dots, and the last. -/
structure DottedKey where
  path : List Key
  last : Key

/-- Where the key begins. -/
def DottedKey.place (k : DottedKey) : Nat := (k.path.head?.getD k.last).place

/-- How a table came about. -/
inductive Origin where
  | defined
  | implied
  | dotted
  deriving DecidableEq

mutual

/-- What stands under a key. -/
inductive Item where
  | value (d : Datum)
  | table (t : Table)
  /-- Tables under one repeated header, the latest first, and the place of the first. -/
  | tables (place : Nat) (latest : Table) (earlier : List Table)

/-- A table with the place where it begins. -/
inductive Table where
  | mk (origin : Origin) (place : Nat) (entries : List (String × Item))

end

namespace Table

/-- How the table came about. -/
def origin : Table → Origin
  | mk o _ _ => o

/-- Where the table begins. -/
def place : Table → Nat
  | mk _ p _ => p

/-- The keys of the table and what stands under them. -/
def entries : Table → List (String × Item)
  | mk _ _ es => es

/-- A table without keys. -/
def empty (origin : Origin) (place : Nat) : Table := mk origin place []

instance : Inhabited Table := ⟨empty .defined 0⟩

/-- The table with other entries. -/
def withEntries (t : Table) (es : List (String × Item)) : Table := mk t.origin t.place es

/-- What stands under a key. -/
def get? (t : Table) (key : String) : Option Item :=
  (t.entries.find? (·.1 = key)).map (·.2)

/-- The table with an item under a key: a known key keeps its place, a new one comes last. -/
def put (t : Table) (key : String) (item : Item) : Table :=
  if t.entries.any (·.1 = key) then
    t.withEntries (t.entries.map fun e => if e.1 = key then (key, item) else e)
  else t.withEntries (t.entries ++ [(key, item)])

/-- The table without a key. -/
def erase (t : Table) (key : String) : Table := t.withEntries (t.entries.filter (·.1 ≠ key))

/-- The table with the one at a path below it changed; tables that are missing on the way
are made. `byKeys` tells that dotted keys ask for the change, and `place` where they or the
header stand. -/
def update (byKeys : Bool) (place : Nat) (change : Table → Except Nat Table) :
    List Key → Table → Except Nat Table
  | [], t => change t
  | key :: path, t => do
    let item ← match t.get? key.text with
      | none =>
        (update byKeys place change path
          (empty (if byKeys then .dotted else .implied) key.place)).map .table
      | some (.table child) =>
        if byKeys && child.origin = .defined then throw place
        else (update byKeys place change path child).map .table
      | some (.tables first latest earlier) =>
        (update byKeys place change path latest).map fun t => .tables first t earlier
      | some (.value _) => throw place
    return t.put key.text item

/-- The table with a value under a dotted key. The key has to be new, and the table that
takes it has to be made by dotted keys if there is a dot. -/
def define (t : Table) (key : DottedKey) (d : Datum) : Except Nat Table :=
  t.update true key.place (fun child =>
    if (child.origin == .dotted) == key.path.isEmpty then throw key.place
    else if (child.get? key.last.text).isSome then throw key.place
    else return child.put key.last.text (.value d)) key.path

/-- The table with values added one by one. -/
def defineAll (t : Table) (entries : List (DottedKey × Datum)) : Except Nat Table :=
  entries.foldlM (fun t (key, d) => t.define key d) t

mutual

/-- The datum of an item. -/
def itemDatum : Item → Datum
  | .value d => d
  | .table t => t.datum
  | .tables place latest earlier =>
    .marked place (.sequence false (tableData earlier ++ [latest.datum]))

/-- The datum of a table. -/
def datum : Table → Datum
  | mk _ place es => .marked place (.mapping (entryData es))

/-- The data of tables, the latest of which comes first. -/
def tableData : List Table → List Datum
  | [] => []
  | t :: ts => tableData ts ++ [t.datum]

/-- The data of entries. -/
def entryData : List (String × Item) → List (String × Datum)
  | [] => []
  | (key, item) :: es => (key, itemDatum item) :: entryData es

end

end Table

end Depsolve.Toml
