import Depsolve.Graph.InstallationOrder
import Depsolve.Resolution
import Depsolve.Resolver.Basic

/-!
The worklist of a resolution. The stack holds tasks to enter and, below the tasks of a
package's dependencies, a mark at which the package is left. The packages entered and not
left yet form the path from a root to the package at hand, so a cycle shows as a name that
is on the path.

Every step lowers `Resolver.measure`: choosing a version uses up a name of the registry,
entering a chosen package for its groups uses up a task with groups, and all else takes a
frame from the stack.
-/

namespace Depsolve

/-- A package to resolve. -/
structure Task where
  name : PackageName
  constraint : Constraint
  /-- The package that asks for it; a root has none. -/
  parent : Option PackageName
  kind : DependencyKind
  /-- The groups of optional dependencies to follow. -/
  extras : SortedSet String

/-- An entry of the stack. -/
inductive Frame where
  /-- Resolve a package. -/
  | enter (task : Task)
  /-- All dependencies of a package have been resolved. -/
  | leave (name : PackageName)

/-- The state of a resolution. -/
structure Session where
  /-- What is left to do, the next frame first. -/
  stack : List Frame
  /-- The chosen specs in the order of the choices. -/
  resolved : InsertionMap String PackageSpec
  /-- For every chosen package, who asked for it first. -/
  requesters : InsertionMap String String
  /-- The packages entered and not left yet, outermost first. -/
  path : List PackageName
  /-- The conflicts found so far, the latest last. -/
  conflicts : List Conflict
  /-- The chosen packages and the dependencies between them. -/
  graph : DependencyGraph

/-- Whether a frame is a task with groups. -/
def Frame.hasExtras : Frame → Bool
  | enter task => !task.extras.isEmpty
  | leave _ => false

namespace Task

/-- The task of a root requirement. -/
def root (r : Requirement) : Task :=
  ⟨PackageName.of r.name, r.constraint, none, .required, r.extras⟩

/-- The tasks of some dependencies of a package. -/
def children (parent : PackageName) (kind : DependencyKind) (deps : Dependencies) : List Task :=
  deps.entries.map fun (name, constraint) => ⟨name, constraint, some parent, kind, SortedMap.empty⟩

/-- The tasks of the groups that are asked for; a group that the package does not declare
has none. -/
def extraChildren (t : Task) (spec : PackageSpec) : List Task :=
  t.extras.toList.flatMap fun group =>
    match spec.extra group with
    | some deps => children t.name (.extra group) deps
    | none => []

/-- What is asked for, in words. -/
def requirement (t : Task) : String := t.name.text ++ " " ++ t.constraint.render

theorem extras_of_mem_children {parent : PackageName} {kind : DependencyKind}
    {deps : Dependencies} {t : Task} (h : t ∈ children parent kind deps) :
    t.extras = SortedMap.empty := by
  obtain ⟨_, _, rfl⟩ := List.mem_map.mp h
  rfl

theorem extras_of_mem_extraChildren {t u : Task} {spec : PackageSpec}
    (h : u ∈ t.extraChildren spec) : u.extras = SortedMap.empty := by
  obtain ⟨group, _, h⟩ := List.mem_flatMap.mp h
  split at h
  · exact extras_of_mem_children h
  · simp at h

end Task

namespace Session

/-- The state before anything is resolved. -/
def start : Session where
  stack := []
  resolved := InsertionMap.empty
  requesters := InsertionMap.empty
  path := []
  conflicts := []
  graph := DependencyGraph.empty

/-- One more conflict is noted. -/
def report (s : Session) (c : Conflict) : Session := { s with conflicts := s.conflicts ++ [c] }

/-- Who stands behind a root task, in words. -/
def rootRequester : String := "a root requirement"

/-- Who asks for a task, in words. -/
def requester (s : Session) (t : Task) : String :=
  match t.parent with
  | some parent =>
    match s.resolved.get? parent.text with
    | some spec => spec.id
    | none => parent.text
  | none => rootRequester

/-- A package is entered: it joins the path, and its dependencies are the next tasks. -/
def descend (s : Session) (name : PackageName) (tasks : List Task) : Session :=
  { s with
    path := s.path ++ [name]
    stack := tasks.map .enter ++ .leave name :: s.stack }

/-- The dependency that a task stands for goes into the graph, unless it would close a
cycle there, which is a conflict. -/
def recordEdge (s : Session) (t : Task) : Session :=
  match t.parent with
  | none => s
  | some parent =>
    match s.graph.path? t.name.text parent.text with
    | some chain => s.report (.cycle (chain ++ [t.name.text]))
    | none =>
      match s.graph.addDependency parent.text t.name.text ⟨t.constraint, t.kind⟩ with
      | .ok graph => { s with graph }
      | .error _ => s

@[simp] theorem resolved_recordEdge (s : Session) (t : Task) :
    (s.recordEdge t).resolved = s.resolved := by
  unfold recordEdge
  repeat' split
  all_goals rfl

@[simp] theorem stack_recordEdge (s : Session) (t : Task) :
    (s.recordEdge t).stack = s.stack := by
  unfold recordEdge
  repeat' split
  all_goals rfl

@[simp] theorem resolved_descend (s : Session) (name : PackageName) (tasks : List Task) :
    (s.descend name tasks).resolved = s.resolved := rfl

/-- A task whose package is on the path. -/
def closeCycle (s : Session) (t : Task) : Session :=
  s.report (.cycle ((s.path.dropWhile (· ≠ t.name)).map (·.text) ++ [t.name.text]))

/-- The conflict of a task with the version that was chosen before. -/
def disagreement (s : Session) (t : Task) (existing : PackageSpec) : Conflict where
  kind := .version
  package := t.name.text
  specs := [existing.id, t.requirement]
  explanation :=
    "Package '" ++ t.name.text ++ "' is already resolved to " ++ existing.version.render
      ++ " (required by " ++ (s.requesters.get? t.name.text).getD rootRequester
      ++ "), which does not satisfy '" ++ t.constraint.render ++ "' required by "
      ++ s.requester t

/-- A task whose package is chosen already. -/
def revisit (s : Session) (t : Task) (existing : PackageSpec) : Session :=
  if t.constraint.holds existing.version then
    let s := s.recordEdge t
    if t.extras.isEmpty then s else s.descend t.name (t.extraChildren existing)
  else s.report (s.disagreement t existing)

/-- A version is chosen for a task. -/
def accept (s : Session) (t : Task) (spec : PackageSpec) : Session :=
  let chosen : Session :=
    { s with
      resolved := s.resolved.insert t.name.text spec
      requesters := s.requesters.insert t.name.text (s.requester t)
      graph := s.graph.add ⟨t.name.text, spec.version⟩ }
  (chosen.recordEdge t).descend t.name
    (Task.children t.name .required spec.dependencies ++ t.extraChildren spec)

/-- Versions in a row. -/
def listVersions (vs : List Version) : String := Text.joinWith ", " (vs.map Version.render)

/-- The conflict of a task for which no version can be chosen. -/
def failure (s : Session) (context : Context) (t : Task) : SelectionFailure → Conflict
  | .notFound =>
    ⟨.missing, t.name.text, [t.requirement],
      "Package '" ++ t.name.text ++ "' required by " ++ s.requester t ++ " was not found"⟩
  | .unsatisfiable available =>
    ⟨.version, t.name.text, t.requirement :: available.map (PackageSpec.idOf t.name.text),
      "No version of '" ++ t.name.text ++ "' satisfies '" ++ t.constraint.render
        ++ "' required by " ++ s.requester t ++ " (available: " ++ listVersions available
        ++ ")"⟩
  | .prereleaseOnly prereleases =>
    ⟨.version, t.name.text, t.requirement :: prereleases.map (PackageSpec.idOf t.name.text),
      "Only prerelease versions of '" ++ t.name.text ++ "' satisfy '" ++ t.constraint.render
        ++ "' required by " ++ s.requester t ++ " and prereleases are not allowed ("
        ++ listVersions prereleases ++ ")"⟩
  | .runtimeIncompatible rejected =>
    ⟨.runtime, t.name.text, t.requirement :: rejected.map (PackageSpec.idOf t.name.text),
      "No version of '" ++ t.name.text ++ "' matching '" ++ t.constraint.render
        ++ "' supports runtime " ++ (context.runtime.map Version.render).getD "unknown"
        ++ " (rejected: " ++ listVersions rejected ++ ")"⟩
  | .platformIncompatible rejected =>
    ⟨.platform, t.name.text, t.requirement :: rejected.map (PackageSpec.idOf t.name.text),
      "No version of '" ++ t.name.text ++ "' matching '" ++ t.constraint.render
        ++ "' supports platform " ++ context.platform.getD "unknown"
        ++ " (rejected: " ++ listVersions rejected ++ ")"⟩

/-- The names along a cycle of the graph, the first once more last. -/
def closedWalk (cycle : List PackageId) : List String :=
  (cycle ++ cycle.head?.toList).map (·.name)

/-- What the session comes to once nothing is left to do. A graph without an order of
installation has its cycle among the conflicts, and the choices keep their order. -/
def finish (s : Session) : Resolution :=
  match s.graph.installationOrder with
  | .ok order => ⟨s.resolved, s.conflicts, order.map (·.name)⟩
  | .error _ =>
    ⟨s.resolved, s.conflicts ++ (s.graph.cycle?.map fun c => .cycle (closedWalk c)).toList,
      s.resolved.keys⟩

end Session

namespace Resolver

/-! ### Steps -/

/-- A task is entered. -/
def enter (r : Resolver) (s : Session) (t : Task) : Session :=
  if t.name ∈ s.path then s.closeCycle t
  else match s.resolved.get? t.name.text with
    | some existing => s.revisit t existing
    | none =>
      match r.choose t.name t.constraint with
      | .ok spec => s.accept t spec
      | .error f => s.report (s.failure r.context t f)

/-- The next frame is dealt with. -/
def step (r : Resolver) (s : Session) : Session :=
  match s.stack with
  | [] => s
  | .enter task :: rest => r.enter { s with stack := rest } task
  | .leave name :: rest => { s with stack := rest, path := s.path.erase name }

/-! ### Why the steps come to an end -/

/-- The names of the registry for which no version is chosen yet. -/
def openNames (r : Resolver) (resolved : InsertionMap String PackageSpec) : List PackageName :=
  r.registry.available.keys.filter fun n => !resolved.contains n.text

/-- The number of tasks with groups. -/
def extrasPending (stack : List Frame) : Nat := stack.countP Frame.hasExtras

/-- What every step lowers. -/
def measure (r : Resolver) (s : Session) : Nat × Nat × Nat :=
  ((r.openNames s.resolved).length, extrasPending s.stack, s.stack.length)

/-- The order in which the measure goes down. -/
def below : Nat × Nat × Nat → Nat × Nat × Nat → Prop :=
  Prod.Lex (· < ·) (Prod.Lex (· < ·) (· < ·))

theorem below_of_stack {r : Resolver} {s t : Session} (hresolved : t.resolved = s.resolved)
    {frame : Frame} (hstack : s.stack = frame :: t.stack) :
    below (r.measure t) (r.measure s) := by
  unfold measure below extrasPending
  rw [hresolved, hstack, List.countP_cons]
  refine Prod.Lex.right _ ?_
  by_cases h : frame.hasExtras
  · exact Prod.Lex.left _ _ (by simp [h])
  · simpa [h] using Prod.Lex.right _ (by simp)

theorem length_openNames_insert_lt {r : Resolver} {resolved : InsertionMap String PackageSpec}
    {name : PackageName} (hopen : name ∈ r.openNames resolved) (spec : PackageSpec) :
    (r.openNames (resolved.insert name.text spec)).length < (r.openNames resolved).length := by
  have hsub : r.openNames (resolved.insert name.text spec) =
      (r.openNames resolved).filter fun n => !decide (n.text = name.text) := by
    simp [openNames, List.filter_filter]
  rw [hsub, List.length_filter_lt_length_iff_exists]
  exact ⟨name, hopen, by simp⟩

theorem extrasPending_enter {tasks : List Task} (h : ∀ t ∈ tasks, t.extras = SortedMap.empty) :
    extrasPending (tasks.map .enter) = 0 := by
  rw [extrasPending, List.countP_eq_zero]
  intro f hf
  obtain ⟨t, ht, rfl⟩ := List.mem_map.mp hf
  simp [Frame.hasExtras, h t ht, SortedMap.isEmpty, SortedMap.empty]

theorem extrasPending_descend {s : Session} {name : PackageName} {tasks : List Task}
    (h : ∀ t ∈ tasks, t.extras = SortedMap.empty) :
    extrasPending (s.descend name tasks).stack = extrasPending s.stack := by
  have htasks := extrasPending_enter h
  rw [extrasPending] at htasks
  simp [extrasPending, Session.descend, List.countP_append, htasks, Frame.hasExtras]

theorem step_below {r : Resolver} {s : Session} (h : s.stack ≠ []) :
    below (r.measure (r.step s)) (r.measure s) := by
  unfold step
  split
  · contradiction
  · rename_i task rest hstack
    unfold enter
    split
    · exact below_of_stack rfl hstack
    · split
      · rename_i existing _
        unfold Session.revisit
        split
        · dsimp only
          split
          · exact below_of_stack (by simp) (by simpa using hstack)
          · rename_i hextras
            unfold measure below
            rw [extrasPending_descend fun t ht => Task.extras_of_mem_extraChildren ht]
            simp only [Session.resolved_descend, Session.resolved_recordEdge,
              Session.stack_recordEdge]
            refine Prod.Lex.right _ (Prod.Lex.left _ _ ?_)
            simp [extrasPending, hstack, Frame.hasExtras, hextras]
        · exact below_of_stack rfl hstack
      · rename_i hnew
        split
        · rename_i spec hspec
          refine Prod.Lex.left _ _ ?_
          simp only [Session.accept, Session.resolved_descend, Session.resolved_recordEdge]
          refine length_openNames_insert_lt ?_ spec
          refine List.mem_filter.mpr ⟨mem_keys_of_choose hspec, ?_⟩
          simpa using InsertionMap.get?_eq_none_iff.mp hnew
        · exact below_of_stack rfl hstack
  · rename_i name rest hstack
    exact below_of_stack rfl hstack

/-- All that is on the stack is worked off. -/
def run (r : Resolver) (s : Session) : Session :=
  if s.stack.isEmpty then s else r.run (r.step s)
termination_by r.measure s
decreasing_by exact step_below (by simpa using ‹¬s.stack.isEmpty = true›)

end Resolver

end Depsolve
