import Depsolve.Graph.Cycle

/-!
The order of installation: every package after all of its dependencies. Each package
waits for a number of dependencies; of those that wait for none, the one that was added
to the graph first is installed next, and its dependents wait for one less.
-/

namespace Depsolve

/-- The state of the countdown. -/
structure Countdown where
  /-- For every package the number of its dependencies that are not installed yet. -/
  pending : SortedMap String Nat
  /-- The packages that wait for nothing and are not installed yet, by their place. -/
  ready : SortedMap Nat String
  /-- The installed packages. -/
  order : List String

namespace DependencyGraph

/-- Before anything is installed. -/
def countdownStart (g : DependencyGraph) : Countdown where
  pending := SortedMap.ofList (g.names.map fun n => (n, (g.dependenciesOf n).length))
  ready := SortedMap.ofList
    ((g.names.filter fun n => (g.dependenciesOf n).isEmpty).map fun n => (g.position n, n))
  order := []

/-- A dependency of `name` has been installed. -/
def countDown (g : DependencyGraph) (c : Countdown) (name : String) : Countdown :=
  let remaining := (c.pending.get? name).getD 0 - 1
  { c with
    pending := c.pending.insert name remaining
    ready := if remaining = 0 then c.ready.insert (g.position name) name else c.ready }

/-- The next package that waits for nothing is installed. -/
def countdownStep (g : DependencyGraph) (c : Countdown) : Countdown :=
  match c.ready.entries with
  | [] => c
  | (place, name) :: _ =>
    (g.dependentsOf name).foldl g.countDown
      { c with ready := c.ready.erase place, order := c.order ++ [name] }

/-- The state after some steps. -/
def countdownAfter (g : DependencyGraph) : Nat → Countdown
  | 0 => g.countdownStart
  | n + 1 => g.countdownStep (g.countdownAfter n)

/-- The names in the order of installation as far as the countdown gets. -/
def emitted (g : DependencyGraph) : List String := (g.countdownAfter g.packages.length).order

/-- The order of installation, or the cycle that allows none. -/
def installationOrder (g : DependencyGraph) : Except GraphError (List PackageId) :=
  let order := g.emitted.filterMap g.package?
  if order.length = g.packages.length then .ok order
  else g.validate.map fun _ => order

end DependencyGraph

end Depsolve
