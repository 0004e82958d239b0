import Depsolve.Graph.Path

/-!
Cycles of the dependency graph. `finishFrom` orders the packages so that, without a
cycle, each comes after all of its dependencies; a package that stands in front of one
of its dependents in that order, read backwards, lies on a cycle. From such a package
the cycle itself is found by following links that lead back.
-/

namespace Depsolve.DependencyGraph

/-- Depth-first search from the packages on `stack`. A package is marked when it is first
on top, and its unmarked dependencies go on top of it; when it is on top again it is
finished. The result is the packages never marked and the finished ones, last first, or
the first package met that depends on itself. -/
def finishFrom (g : DependencyGraph) (unmarked stack finished : List String) :
    Except String (List String × List String) :=
  match stack with
  | [] => .ok (unmarked, finished)
  | top :: rest =>
    if top ∈ unmarked then
      if top ∈ g.dependenciesOf top then .error top
      else
        let unmarked' := without [top] unmarked
        g.finishFrom unmarked' ((g.fresh unmarked' top).reverse ++ top :: rest) finished
    else
      g.finishFrom unmarked rest (if top ∈ finished then finished else top :: finished)
termination_by (unmarked.length, stack.length)
decreasing_by
  · rename_i htop _
    exact Prod.Lex.left _ _ (length_without_lt (by simp) htop)
  · exact Prod.Lex.right _ (by simp)

/-- Depth-first search from one more package, unless it is marked already. -/
def finishNext (g : DependencyGraph) (state : List String × List String) (name : String) :
    Except String (List String × List String) :=
  if name ∈ state.1 then g.finishFrom state.1 [name] state.2 else .ok state

/-- All packages in the order in which they are finished, last first, or a package that
depends on itself. -/
def finishOrder (g : DependencyGraph) : Except String (List String) := do
  let state ← g.names.foldlM g.finishNext (g.names, [])
  return state.2

/-- The first package of `order`, of those after the `passed` ones, with a dependent not
passed yet; the answer is that dependent. -/
def lateDependent? (g : DependencyGraph) (passed : List String) : List String → Option String
  | [] => none
  | name :: order =>
    let late := (g.dependentsOf name).filter (· ∉ name :: passed)
    match late.getLast? with
    | some dependent => some dependent
    | none => g.lateDependent? (name :: passed) order

/-- A package that lies on a cycle, if there is a cycle. -/
def cycleMember? (g : DependencyGraph) : Option String :=
  match g.finishOrder with
  | .error name => some name
  | .ok order => g.lateDependent? [] order

/-- The walk from `current` along links that lead back, up to the first package that comes
again; what stands in front of it on the way is left out. -/
def walkCycle (g : DependencyGraph) (unvisited path : List String) (current : String) :
    List String :=
  if current ∈ unvisited then
    match (g.dependenciesOf current).find? (g.reaches · current) with
    | some next => g.walkCycle (without [current] unvisited) (path ++ [current]) next
    | none => [current]
  else path.dropWhile (· ≠ current)
termination_by unvisited.length
decreasing_by exact length_without_lt (by simp) ‹current ∈ unvisited›

/-- The packages of a cycle, each followed by one it depends on and the last by the first,
if there is a cycle. -/
def cycle? (g : DependencyGraph) : Option (List PackageId) :=
  g.cycleMember?.map fun name => (g.walkCycle g.names [] name).filterMap g.package?

/-- A cycle in words: the names with arrows between them, the first one once more last. -/
def formatCycle (cycle : List String) : String :=
  match cycle with
  | [] => "No cycle"
  | name :: _ => Text.joinWith " -> " (cycle ++ [name])

/-- Refuses a graph with a cycle. -/
def validate (g : DependencyGraph) : Except GraphError Unit :=
  match g.cycle? with
  | some cycle => .error (.cycle (formatCycle (cycle.map (·.name))))
  | none => .ok ()

end Depsolve.DependencyGraph
