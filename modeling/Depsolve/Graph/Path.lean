import Depsolve.Graph.Basic

/-!
Shortest chains of dependencies, found breadth first. A package is entered into the
search once, together with the package it was reached from; walking these entries back
from the goal gives the chain.
-/

namespace Depsolve.DependencyGraph

/-- The chain that ends in `name`, in front of `chain`. The entries are pairs of a package
and the one it was reached from, newest first, so that the entry of the latter comes
further down the list. -/
def traceBack : List (String × String) → String → List String → List String
  | [], name, chain => name :: chain
  | (reached, source) :: entries, name, chain =>
    if reached = name then traceBack entries source (name :: chain)
    else traceBack entries name chain

/-- The names that are not among the taken ones. -/
def without (taken names : List String) : List String := names.filter (· ∉ taken)

theorem without_nil (names : List String) : without [] names = names := by
  simp [without]

theorem length_without_lt {taken names : List String} {name : String} (ht : name ∈ taken)
    (hn : name ∈ names) : (without taken names).length < names.length := by
  unfold without
  rw [List.length_filter_lt_length_iff_exists]
  exact ⟨name, hn, by simp [ht]⟩

/-- The direct dependencies of a package that are not entered yet. -/
def fresh (g : DependencyGraph) (unseen : List String) (name : String) : List String :=
  (g.dependenciesOf name).filter (· ∈ unseen)

/-- The search for `goal`: `unseen` are the packages not entered yet, `queue` those to look
at, and `entries` tell for each entered package which one it was reached from. -/
def search (g : DependencyGraph) (goal : String) (unseen queue : List String)
    (entries : List (String × String)) : Option (List String) :=
  match queue with
  | [] => none
  | current :: rest =>
    if current = goal then some (traceBack entries current [])
    else
      let entered := g.fresh unseen current
      g.search goal (without entered unseen) (rest ++ entered)
        (entered.reverse.map (·, current) ++ entries)
termination_by (unseen.length, queue.length)
decreasing_by
  cases h : g.fresh unseen current with
  | nil =>
    rw [without_nil, List.append_nil]
    exact Prod.Lex.right _ (by simp)
  | cons n others =>
    have hn : n ∈ g.fresh unseen current := by simp [h]
    have hseen : n ∈ unseen := by simpa using (List.mem_filter.mp hn).2
    exact Prod.Lex.left _ _ (length_without_lt (by simp) hseen)

/-- A shortest chain of dependencies from one package to another, both ends included. -/
def path? (g : DependencyGraph) (source target : String) : Option (List String) :=
  if source ∈ g.names ∧ target ∈ g.names then
    g.search target (without [source] g.names) [source] []
  else none

/-- Whether a package can be reached from another, itself included. -/
def reaches (g : DependencyGraph) (source target : String) : Bool :=
  (g.path? source target).isSome

end Depsolve.DependencyGraph
