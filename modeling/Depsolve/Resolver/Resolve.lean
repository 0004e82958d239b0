import Depsolve.Resolver.Session

/-!
Resolution of root requirements, one root after another in one session.
-/

namespace Depsolve

/-- The groups of optional dependencies wanted with packages, by any spelling of their
names. -/
abbrev RequestedExtras := SortedMap String (SortedSet String)

namespace Resolver

/-- One more root is resolved. -/
def resolveRoot (r : Resolver) (s : Session) (root : Requirement) : Session :=
  r.run { s with stack := .enter (Task.root root) :: s.stack }

/-- The resolution of some roots. It always comes to an answer: what goes wrong is in its
conflicts. -/
def resolve (r : Resolver) (roots : List Requirement) : Resolution :=
  (roots.foldl r.resolveRoot Session.start).finish

/-- The groups by normal form of the package name; spellings of one name are taken
together. -/
def mergeExtras (requested : RequestedExtras) : RequestedExtras :=
  requested.entries.foldl (fun merged (name, groups) =>
    let known := (merged.get? (normalize name)).getD SortedMap.empty
    merged.insert (normalize name) (groups.toList.foldl (fun gs g => gs.add (normalize g)) known))
    SortedMap.empty

/-- The roots that pairs of name and constraint spell. The first root of a package takes
the groups wanted with it. -/
def readRoots (requested : RequestedExtras) :
    List (String × String) → Except Error (List Requirement)
  | [] => .ok []
  | (name, constraint) :: rest => do
    let root ← Requirement.parse name constraint
    let groups := (requested.get? root.name).getD SortedMap.empty
    let roots ← readRoots (requested.erase root.name) rest
    return { root with extras := root.extras.union groups } :: roots

/-- The resolution of roots given as texts. Only a blank name or a malformed constraint
is an error. -/
def resolveTexts (r : Resolver) (roots : List (String × String)) (requested : RequestedExtras) :
    Except Error Resolution :=
  (readRoots (mergeExtras requested) roots).map r.resolve

end Resolver

end Depsolve
