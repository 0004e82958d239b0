import Depsolve.Text.Split

/-!
Directories and files seen from one root directory. A path is a text; it is looked up name
by name, where a name that is empty or a dot stays in the directory and two dots lead to the
one above. There are directories above the root, up to the top of all, of which nothing is
known but that they are there: neither their names nor what else they hold.

The parent of a path is read off its text alone.
-/

namespace Depsolve

/-- What a file holds. -/
inductive FileContent where
  | text (s : String)
  | bytes (b : ByteArray)

/-- A directory that is there without having been made. -/
inductive Anchor where
  /-- So many directories above the root; none is the root itself. -/
  | above (levels : Nat)
  /-- The top of all directories. -/
  | top
  deriving DecidableEq

/-- A place: the names that lead to it from an anchor. -/
structure Location where
  anchor : Anchor
  names : List String
  deriving DecidableEq

/-- Directories and files. -/
structure FileTree where
  /-- The path of the root. -/
  root : String
  /-- The directories that are no anchors. -/
  directories : List Location
  /-- The files. -/
  files : List (Location × FileContent)

/-- The text of a file, if it is one. -/
def FileContent.text? : FileContent → Option String
  | text s => some s
  | bytes b => String.fromUTF8? b

namespace Path

/-! ### Paths as texts -/

/-- The names of a path. -/
def names (path : String) : List String :=
  (Text.splitOn '/' path.toList).map String.ofList

/-- The path of names. -/
def ofNames (names : List String) : String := Text.joinWith "/" names

/-- Whether a path begins at the top of all directories. -/
def isAbsolute (path : String) : Bool := path.toList.head? == some '/'

/-- A path followed from a directory. -/
def join (directory path : String) : String :=
  if isAbsolute path then path
  else if directory.toList.getLast? == some '/' then directory ++ path
  else directory ++ "/" ++ path

/-- A name that stays in its directory. -/
def isVoid (name : String) : Bool := name == "" || name == "."

/-- The names without the last one that counts, all of them last first. -/
def parentNames : List String → List String
  | [] => []
  | name :: above => if isVoid name then parentNames above else above.dropWhile isVoid

theorem length_parentNames_lt {names : List String} (h : names ≠ []) :
    (parentNames names).length < names.length := by
  induction names with
  | nil => contradiction
  | cons name above ih =>
    unfold parentNames
    split
    · cases above with
      | nil => simp [parentNames]
      | cons => exact Nat.lt_succ_of_lt (ih (by simp))
    · exact Nat.lt_succ_of_le (List.dropWhile_suffix _).length_le

/-- The parent of a path. -/
def parent (path : String) : String := ofNames (parentNames (names path).reverse).reverse

/-- The parent, its parent, and so on, of names that come last first. -/
def parentsOf (names : List String) : List String :=
  if names.isEmpty then []
  else
    let above := parentNames names
    if above.isEmpty then [] else ofNames above.reverse :: parentsOf above
termination_by names.length
decreasing_by exact length_parentNames_lt (by simpa using ‹¬names.isEmpty = true›)

/-- A path and all directories above it, the nearest first. -/
def ancestors (path : String) : List String := path :: parentsOf (names path).reverse

end Path

namespace Location

/-! ### Places -/

/-- The root. -/
def root : Location := ⟨.above 0, []⟩

/-- The place that a name leads to. -/
def child (l : Location) (name : String) : Location := { l with names := l.names ++ [name] }

/-- The directory above a place; the top is above itself. -/
def parent : Location → Location
  | ⟨.above levels, []⟩ => ⟨.above (levels + 1), []⟩
  | ⟨.top, []⟩ => ⟨.top, []⟩
  | l => { l with names := l.names.dropLast }

end Location

namespace FileTree

/-- A tree with an empty root directory. -/
def empty (root : String) : FileTree := ⟨root, [], []⟩

/-- Whether there is a directory. -/
def isDirectory (t : FileTree) (l : Location) : Bool := l.names.isEmpty || t.directories.contains l

/-- The content of a file. -/
def file? (t : FileTree) (l : Location) : Option FileContent :=
  (t.files.find? (·.1 = l)).map (·.2)

/-- Whether there is anything. -/
def has (t : FileTree) (l : Location) : Bool := t.isDirectory l || (t.file? l).isSome

/-- Where names lead to from some place, if there is something. -/
def follow (t : FileTree) (l : Location) : List String → Option Location
  | [] => if t.has l then some l else none
  | name :: names =>
    if !t.isDirectory l then none
    else if Path.isVoid name then t.follow l names
    else if name = ".." then t.follow l.parent names
    else t.follow (l.child name) names

/-- Where a path begins, and the names that lead on from there. A path that begins neither
with the root nor at the top begins nowhere. -/
def start? (t : FileTree) (path : String) : Option (Location × List String) :=
  let names := Path.names path
  let root := Path.names t.root
  if root.isPrefixOf names then some (.root, names.drop root.length)
  else if Path.isAbsolute path then some (⟨.top, []⟩, names)
  else none

/-- Where a path leads to, if there is something. -/
def locate (t : FileTree) (path : String) : Option Location := do
  let (begin, names) ← t.start? path
  t.follow begin names

/-- Whether there is something at a path. -/
def exists? (t : FileTree) (path : String) : Bool := (t.locate path).isSome

/-- The text of the file at a path, if it is one. -/
def read? (t : FileTree) (path : String) : Option String := do
  (← t.file? (← t.locate path)).text?

/-! ### Changes -/

/-- A name that a file can have. -/
def isFileName (name : String) : Bool :=
  !Path.isVoid name && name != ".." && name.utf8ByteSize ≤ 255 && !name.contains '\x00'

/-- The tree with a file at a location; an old one there is replaced. -/
def put (t : FileTree) (l : Location) (c : FileContent) : FileTree :=
  { t with files := (l, c) :: t.files.filter (·.1 ≠ l) }

/-- The tree with a file at a path, if there can be one. Its directory has to be there. -/
def write? (t : FileTree) (path : String) (c : FileContent) : Option FileTree := do
  let (begin, names) ← t.start? path
  let name ← names.getLast?
  let directory ← t.follow begin names.dropLast
  let target := directory.child name
  if t.isDirectory directory && isFileName name && !t.isDirectory target then
    some (t.put target c)
  else none

/-- The tree with the directories that names lead through, and where they lead to. -/
def makeWay (t : FileTree) (l : Location) : List String → FileTree × Location
  | [] => (t, l)
  | name :: names =>
    if Path.isVoid name then t.makeWay l names
    else if name = ".." then t.makeWay l.parent names
    else
      let next := l.child name
      let t := if t.has next then t else { t with directories := next :: t.directories }
      t.makeWay next names

/-- The tree with a directory and those above it; the path begins at the root. -/
def addDirectory (t : FileTree) (path : String) : FileTree :=
  (t.makeWay .root (Path.names path)).1

/-- The tree with a file and the directories above it; the path begins at the root. -/
def addFile (t : FileTree) (path : String) (c : FileContent) : FileTree :=
  let names := Path.names path
  let (t, directory) := t.makeWay .root names.dropLast
  match names.getLast? with
  | some name => t.put (directory.child name) c
  | none => t

end FileTree

end Depsolve
