import Depsolve.Proofs.Resolver.Reached

/-!
The worklist does what a recursive search in depth does.

* `Findings` are what both find out: a session without stack and path.
* `visit` is the recursive search. It is told the packages in progress and hands the findings
  on from one task to the next, so nothing waits on a stack. It ends because a package that is
  chosen leaves one name less off the path, and only roots ask for groups.
* `run_visit` is the simulation, by induction on the calls: with a task on top of the stack
  the worklist comes to the findings of the visit, with the same path and the rest of the
  stack.
-/

namespace Depsolve

/-- What a resolution has found out. -/
structure Findings where
  /-- The chosen specs in the order of the choices. -/
  resolved : InsertionMap String PackageSpec
  /-- For every chosen package, who asked for it first. -/
  requesters : InsertionMap String String
  /-- The conflicts found so far, the latest last. -/
  conflicts : List Conflict
  /-- The chosen packages and the dependencies between them. -/
  graph : DependencyGraph

namespace Findings

/-- Nothing is found out yet. -/
def start : Findings where
  resolved := InsertionMap.empty
  requesters := InsertionMap.empty
  conflicts := []
  graph := DependencyGraph.empty

/-- The session that has found this out on its way. -/
def session (f : Findings) (path : List PackageName) (stack : List Frame) : Session where
  stack
  resolved := f.resolved
  requesters := f.requesters
  path
  conflicts := f.conflicts
  graph := f.graph

/-- One more conflict is noted. -/
def report (f : Findings) (c : Conflict) : Findings := { f with conflicts := f.conflicts ++ [c] }

/-- The dependency that a task stands for is recorded, or the cycle that it would close is
noted. -/
def record (f : Findings) (t : Task) : Findings :=
  match t.parent with
  | none => f
  | some parent =>
    match f.graph.path? t.name.text parent.text with
    | some chain => f.report (.cycle (chain ++ [t.name.text]))
    | none =>
      match f.graph.addDependency parent.text t.name.text ⟨t.constraint, t.kind⟩ with
      | .ok graph => { f with graph }
      | .error _ => f

/-- A spec is chosen for a task. -/
def choose (f : Findings) (t : Task) (spec : PackageSpec) : Findings :=
  { f with
    resolved := f.resolved.insert t.name.text spec
    requesters := f.requesters.insert t.name.text ((f.session [] []).requester t)
    graph := f.graph.add ⟨t.name.text, spec.version⟩ }

/-- The conflict of a task with the version that was chosen before. -/
def disagreement (f : Findings) (t : Task) (existing : PackageSpec) : Conflict :=
  (f.session [] []).disagreement t existing

/-- The conflict of a task for which no version can be chosen. -/
def failure (f : Findings) (context : Context) (t : Task) (failure : SelectionFailure) : Conflict :=
  (f.session [] []).failure context t failure

/-- What the findings come to at the end. -/
def answer (f : Findings) : Resolution := (f.session [] []).finish

end Findings

namespace Resolver

variable {r : Resolver} {path : List PackageName} {name : PackageName} {t : Task}
  {tasks : List Task} {f : Findings}

/-! ### The recursive search -/

/-- The number of packages of the registry that are not on a path. -/
def offPath (r : Resolver) (path : List PackageName) : Nat :=
  (r.registry.available.keys.filter (· ∉ path)).length

theorem offPath_concat_le (r : Resolver) (path : List PackageName) (name : PackageName) :
    r.offPath (path ++ [name]) ≤ r.offPath path := by
  refine List.Sublist.length_le (List.monotone_filter_right _ fun n hn => ?_)
  simp only [List.mem_append, not_or, decide_eq_true_eq] at hn ⊢
  exact hn.1

theorem offPath_concat_lt (hname : name ∈ r.registry.available.keys) (hpath : name ∉ path) :
    r.offPath (path ++ [name]) < r.offPath path := by
  have hsub : r.registry.available.keys.filter (· ∉ path ++ [name]) =
      (r.registry.available.keys.filter (· ∉ path)).filter (· ≠ name) := by
    rw [List.filter_filter]
    refine List.filter_congr fun n _ => ?_
    simp only [List.mem_append, List.mem_singleton, not_or, Bool.decide_and, Bool.and_comm]
  rw [offPath, offPath, hsub, List.length_filter_lt_length_iff_exists]
  exact ⟨name, List.mem_filter.mpr ⟨hname, by simpa using hpath⟩, by simp⟩

mutual

/-- A task is visited while the packages of a path are in progress. The dependencies of a
package are visited before anything else is: the required ones by name, then those of the
groups asked for, group by group. -/
def visit (r : Resolver) (path : List PackageName) (t : Task) (f : Findings) : Findings :=
  if t.name ∈ path then
    f.report (.cycle ((path.dropWhile (· ≠ t.name)).map (·.text) ++ [t.name.text]))
  else
    match f.resolved.get? t.name.text with
    | some existing =>
      if t.constraint.holds existing.version then
        if t.extras.isEmpty then f.record t
        else r.visitAll (path ++ [t.name]) (t.extraChildren existing) (f.record t)
      else f.report (f.disagreement t existing)
    | none =>
      match _hchoose : r.choose t.name t.constraint with
      | .ok spec =>
        r.visitAll (path ++ [t.name])
          (Task.children t.name .required spec.dependencies ++ t.extraChildren spec)
          ((f.choose t spec).record t)
      | .error failure => f.report (f.failure r.context t failure)
termination_by (r.offPath path, extrasPending [.enter t], 0)
decreasing_by
  · -- A package that is entered again need not lower the count of names, but its tasks ask
    -- for no groups.
    rename_i hextras
    have hpath := r.offPath_concat_le path t.name
    have hnone : extrasPending ((t.extraChildren existing).map .enter) = 0 :=
      extrasPending_enter fun _ hu => Task.extras_of_mem_extraChildren hu
    have hone : extrasPending [.enter t] = 1 := by simp [extrasPending, Frame.hasExtras, hextras]
    rw [hnone, hone]
    simp only [Prod.lex_def]
    omega
  · exact Prod.Lex.left _ _ (offPath_concat_lt (mem_keys_of_choose _hchoose) ‹t.name ∉ path›)

/-- Tasks are visited one after another. -/
def visitAll (r : Resolver) (path : List PackageName) (tasks : List Task) (f : Findings) :
    Findings :=
  match tasks with
  | [] => f
  | t :: tasks => r.visitAll path tasks (r.visit path t f)
termination_by (r.offPath path, extrasPending (tasks.map .enter), tasks.length)
decreasing_by
  · have hhead : extrasPending [.enter t] ≤ extrasPending ((t :: tasks).map .enter) := by
      simp [extrasPending, List.countP_cons]
    refine Prod.Lex.right _ ?_
    simp only [Prod.lex_def, List.length_cons]
    omega
  · have htail : extrasPending (tasks.map .enter) ≤ extrasPending ((t :: tasks).map .enter) := by
      simp [extrasPending, List.countP_cons]
    refine Prod.Lex.right _ ?_
    simp only [Prod.lex_def, List.length_cons]
    omega

end

/-- The visit of a package that is neither in progress nor chosen. -/
theorem visit_of_new (hpath : t.name ∉ path) (hnew : f.resolved.get? t.name.text = none) :
    r.visit path t f =
      match r.choose t.name t.constraint with
      | .ok spec =>
        r.visitAll (path ++ [t.name])
          (Task.children t.name .required spec.dependencies ++ t.extraChildren spec)
          ((f.choose t spec).record t)
      | .error failure => f.report (f.failure r.context t failure) := by
  rw [visit, if_neg hpath]
  simp only [hnew]
  split
  · rename_i spec hchoose
    rw [hchoose]
  · rename_i failure hchoose
    rw [hchoose]

/-! ### The simulation -/

/-- Recording a dependency does the same to a session as to its findings. -/
theorem recordEdge_session (f : Findings) (t : Task) (path : List PackageName)
    (stack : List Frame) :
    (f.session path stack).recordEdge t = (f.record t).session path stack := by
  unfold Session.recordEdge Findings.record
  cases t.parent with
  | none => rfl
  | some parent =>
    have hgraph : (f.session path stack).graph = f.graph := rfl
    simp only [hgraph]
    cases f.graph.path? t.name.text parent.text with
    | some chain => rfl
    | none =>
      cases f.graph.addDependency parent.text t.name.text ⟨t.constraint, t.kind⟩ with
      | ok graph => rfl
      | error e => rfl

/-- What entering a task does to the findings, and which package it enters. -/
theorem enter_session (r : Resolver) (f : Findings) (path : List PackageName) (t : Task)
    (rest : List Frame) :
    r.enter (f.session path rest) t =
      if t.name ∈ path then
        (f.report (.cycle ((path.dropWhile (· ≠ t.name)).map (·.text) ++ [t.name.text]))).session
          path rest
      else
        match f.resolved.get? t.name.text with
        | some existing =>
          if t.constraint.holds existing.version then
            if t.extras.isEmpty then (f.record t).session path rest
            else ((f.record t).session path rest).descend t.name (t.extraChildren existing)
          else (f.report (f.disagreement t existing)).session path rest
        | none =>
          match r.choose t.name t.constraint with
          | .ok spec =>
            (((f.choose t spec).record t).session path rest).descend t.name
              (Session.tasksOf t spec)
          | .error failure => (f.report (f.failure r.context t failure)).session path rest := by
  have hresolved : (f.session path rest).resolved = f.resolved := rfl
  have hchosen : ∀ spec, (f.session path rest).accept t spec =
      (((f.choose t spec).session path rest).recordEdge t).descend t.name
        (Session.tasksOf t spec) := fun _ => rfl
  unfold enter Session.revisit
  simp only [hresolved, hchosen, recordEdge_session]
  rfl

theorem run_enter (r : Resolver) (f : Findings) (path : List PackageName) (t : Task)
    (rest : List Frame) :
    r.run (f.session path (.enter t :: rest)) = r.run (r.enter (f.session path rest) t) :=
  run_step (List.cons_ne_nil _ _)

/-- A package that has been entered is left when its tasks are done, and the path is as it was
before. -/
theorem run_leave (r : Resolver) (f : Findings) (hpath : name ∉ path) (rest : List Frame) :
    r.run (f.session (path ++ [name]) (.leave name :: rest)) = r.run (f.session path rest) := by
  have herase : (path ++ [name]).erase name = path := by
    rw [List.erase_append_right _ hpath, List.erase_cons_head, List.append_nil]
  rw [run_step (List.cons_ne_nil _ _)]
  show r.run (f.session ((path ++ [name]).erase name) rest) = _
  rw [herase]

/-- The tasks of a package that is entered are worked off and then the package is left. -/
theorem run_descend {g : Findings} (hpath : name ∉ path)
    (hvisit : ∀ rest, r.run (f.session (path ++ [name]) (tasks.map .enter ++ rest)) =
      r.run (g.session (path ++ [name]) rest)) (rest : List Frame) :
    r.run ((f.session path rest).descend name tasks) = r.run (g.session path rest) := by
  calc r.run ((f.session path rest).descend name tasks)
      = r.run (f.session (path ++ [name]) (tasks.map .enter ++ .leave name :: rest)) := rfl
    _ = r.run (g.session (path ++ [name]) (.leave name :: rest)) := hvisit _
    _ = r.run (g.session path rest) := run_leave r g hpath rest

/-- With a task on top of the stack the worklist comes to what the visit of the task finds,
with the path as it was and the rest of the stack still to do. The same holds of a row of
tasks. -/
theorem run_visit (r : Resolver) :
    (∀ (path : List PackageName) (t : Task) (f : Findings) (rest : List Frame),
      r.run (f.session path (.enter t :: rest)) =
        r.run ((r.visit path t f).session path rest)) ∧
    ∀ (path : List PackageName) (tasks : List Task) (f : Findings) (rest : List Frame),
      r.run (f.session path (tasks.map .enter ++ rest)) =
        r.run ((r.visitAll path tasks f).session path rest) := by
  apply visit.mutual_induct r
  -- The package is in progress.
  case case1 =>
    intro path t f hpath rest
    rw [run_enter, enter_session, if_pos hpath, visit, if_pos hpath]
  -- It is chosen, first without and then with groups, and then at a version that fails.
  case case2 =>
    intro path t f hpath existing hresolved hholds hextras rest
    rw [run_enter, enter_session, if_neg hpath, visit, if_neg hpath]
    simp only [hresolved, if_pos hholds, if_pos hextras]
  case case3 =>
    intro path t f hpath existing hresolved hholds hextras ih rest
    rw [run_enter, enter_session, if_neg hpath, visit, if_neg hpath]
    simp only [hresolved, if_pos hholds, if_neg hextras]
    exact run_descend hpath ih rest
  case case4 =>
    intro path t f hpath existing hresolved hholds rest
    rw [run_enter, enter_session, if_neg hpath, visit, if_neg hpath]
    simp only [hresolved, if_neg hholds]
  -- It is chosen now, or there is no version to choose.
  case case5 =>
    intro path t f hpath hresolved spec hchoose ih rest
    rw [run_enter, enter_session, if_neg hpath, visit_of_new hpath hresolved]
    simp only [hresolved, hchoose]
    exact run_descend hpath ih rest
  case case6 =>
    intro path t f hpath hresolved failure hchoose rest
    rw [run_enter, enter_session, if_neg hpath, visit_of_new hpath hresolved]
    simp only [hresolved, hchoose]
  -- A row of tasks.
  case case7 =>
    intro path f rest
    rw [visitAll]
    rfl
  case case8 =>
    intro path f t tasks ihvisit ihall rest
    rw [visitAll, List.map_cons, List.cons_append, ihvisit, ihall]

/-! ### The answer of a resolution -/

/-- The roots are visited one after another, each with nothing in progress. -/
def visitRoots (r : Resolver) (roots : List Requirement) (f : Findings) : Findings :=
  roots.foldl (fun f root => r.visit [] (Task.root root) f) f

theorem resolveRoot_session (r : Resolver) (f : Findings) (root : Requirement) :
    r.resolveRoot (f.session [] []) root =
      (r.visit [] (Task.root root) f).session [] [] := by
  calc r.resolveRoot (f.session [] []) root
      = r.run (f.session [] [.enter (Task.root root)]) := rfl
    _ = r.run ((r.visit [] (Task.root root) f).session [] []) := r.run_visit.1 _ _ _ _
    _ = (r.visit [] (Task.root root) f).session [] [] := run_of_nil rfl

theorem foldl_resolveRoot (r : Resolver) (roots : List Requirement) (f : Findings) :
    roots.foldl r.resolveRoot (f.session [] []) = (r.visitRoots roots f).session [] [] := by
  induction roots generalizing f with
  | nil => rfl
  | cons root roots ih =>
    rw [List.foldl_cons, resolveRoot_session, ih]
    rfl

/-- After some roots the worklist has found out what the visits of the roots find out. -/
theorem afterRoots_eq (r : Resolver) (roots : List Requirement) :
    r.afterRoots roots = (r.visitRoots roots Findings.start).session [] [] :=
  foldl_resolveRoot r roots Findings.start

/-- One more root is visited last. -/
theorem visitRoots_concat (r : Resolver) (roots : List Requirement) (root : Requirement)
    (f : Findings) :
    r.visitRoots (roots ++ [root]) f = r.visit [] (Task.root root) (r.visitRoots roots f) := by
  rw [visitRoots, visitRoots, List.foldl_append, List.foldl_cons, List.foldl_nil]

/-- The worklist comes to the same choices in the same order, the same conflicts in the same
order and the same order of installation as the recursive search. -/
theorem resolve_eq_visitRoots (r : Resolver) (roots : List Requirement) :
    r.resolve roots = (r.visitRoots roots Findings.start).answer := by
  rw [resolve_eq_finish, afterRoots_eq, Findings.answer]

end Resolver

end Depsolve
