import Depsolve.Proofs.Graph.Path
import Depsolve.Proofs.InsertionMap
import Depsolve.Resolver.Resolve
import Mathlib.Logic.Function.Iterate

/-!
The states that a resolution goes through.

* `Reached` lists them: the start, a state with nothing left to do and one more root on top,
  and the state after a step. `reached_afterRoots` says that a resolution reads its answer
  off such a state.
* `Enters` tells the six ways in which a task is entered and what is known in each, and
  `Records` the three ways in which a dependency is recorded. Invariants are proved by cases
  on these two and never by unfolding a step.
* `Reached.invariant` is the induction over the states, made once.
* `Grows`: choices, conflicts and dependencies are never taken back.
-/

namespace Depsolve

namespace Resolver

/-- The states of resolutions, each with the roots that were asked for by then. -/
inductive Reached (r : Resolver) : List Requirement → Session → Prop where
  | start : Reached r [] Session.start
  | root {roots : List Requirement} {s : Session} (root : Requirement) :
      Reached r roots s → s.stack = [] →
      Reached r (roots ++ [root]) { s with stack := .enter (Task.root root) :: s.stack }
  | step {roots : List Requirement} {s : Session} :
      Reached r roots s → s.stack ≠ [] → Reached r roots (r.step s)

variable {r : Resolver} {roots : List Requirement} {s : Session} {t : Task}

/-! ### Runs -/

theorem run_of_nil (h : s.stack = []) : r.run s = s := by
  rw [run, if_pos (by simp [h])]

theorem run_step (h : s.stack ≠ []) : r.run s = r.run (r.step s) := by
  rw [run, if_neg (by simpa using h)]

theorem step_of_nil (h : s.stack = []) : r.step s = s := by
  rw [step, h]

/-- Where some steps lead to a state with nothing left to do, the run ends in it. -/
theorem run_eq_iterate {steps : Nat} (h : (r.step^[steps] s).stack = []) :
    r.run s = r.step^[steps] s := by
  induction steps generalizing s with
  | zero => exact run_of_nil h
  | succ steps ih =>
    rw [Function.iterate_succ_apply] at h ⊢
    by_cases hnil : s.stack = []
    · rw [step_of_nil hnil] at h ⊢
      exact ih h
    · rw [run_step hnil]
      exact ih h

/-- A run goes through reached states only and leaves nothing to do. -/
theorem reached_run (h : Reached r roots s) :
    Reached r roots (r.run s) ∧ (r.run s).stack = [] := by
  fun_induction run r s with
  | case1 s hnil => exact ⟨h, by simpa using hnil⟩
  | case2 s hne ih => exact ih (h.step (by simpa using hne))

theorem reached_resolveRoot (h : Reached r roots s) (hstack : s.stack = []) (root : Requirement) :
    Reached r (roots ++ [root]) (r.resolveRoot s root) ∧ (r.resolveRoot s root).stack = [] :=
  reached_run (h.root root hstack)

/-- The state in which some roots have been resolved. -/
def afterRoots (r : Resolver) (roots : List Requirement) : Session :=
  roots.foldl r.resolveRoot Session.start

theorem reached_afterRoots (r : Resolver) (roots : List Requirement) :
    Reached r roots (r.afterRoots roots) ∧ (r.afterRoots roots).stack = [] := by
  induction roots using List.reverseRecOn with
  | nil => exact ⟨.start, rfl⟩
  | append_singleton roots root ih =>
    rw [afterRoots, List.foldl_append]
    exact reached_resolveRoot ih.1 ih.2 root

/-- The answer of a resolution is read off a reached state with nothing left to do. -/
theorem resolve_eq_finish (r : Resolver) (roots : List Requirement) :
    r.resolve roots = (r.afterRoots roots).finish := rfl

end Resolver

/-! ### What a step does -/

namespace Session

/-- A spec is chosen for a task; the dependency on it is not recorded yet. -/
def chosen (s : Session) (t : Task) (spec : PackageSpec) : Session :=
  { s with
    resolved := s.resolved.insert t.name.text spec
    requesters := s.requesters.insert t.name.text (s.requester t)
    graph := s.graph.add ⟨t.name.text, spec.version⟩ }

/-- The tasks that a choice brings with it. -/
def tasksOf (t : Task) (spec : PackageSpec) : List Task :=
  Task.children t.name .required spec.dependencies ++ t.extraChildren spec

/-- The ways in which a dependency is recorded. -/
inductive Records (s : Session) (t : Task) : Session → Prop where
  | root (hparent : t.parent = none) : Records s t s
  | cycle {parent : PackageName} {chain : List String} (hparent : t.parent = some parent)
      (hchain : s.graph.SimpleChain t.name.text parent.text chain) :
      Records s t (s.report (.cycle (chain ++ [t.name.text])))
  | link {parent : PackageName} (hparent : t.parent = some parent)
      (hdependent : parent.text ∈ s.graph.names) (hdependency : t.name.text ∈ s.graph.names)
      (hback : ¬ Relation.ReflTransGen s.graph.Edge t.name.text parent.text) :
      Records s t { s with
        graph := s.graph.link parent.text t.name.text ⟨t.constraint, t.kind⟩ hdependent
          hdependency }

/-- Between packages of the graph no dependency is lost. -/
theorem records (s : Session) (t : Task) (hname : t.name.text ∈ s.graph.names)
    (hparent : ∀ p, t.parent = some p → p.text ∈ s.graph.names) :
    s.Records t (s.recordEdge t) := by
  unfold recordEdge
  split
  · rename_i hroot
    exact .root hroot
  · rename_i parent hsome
    have hmem := hparent parent hsome
    split
    · rename_i chain hchain
      exact .cycle hsome (DependencyGraph.simpleChain_of_path? hchain)
    · rename_i hnone
      rw [DependencyGraph.addDependency_eq_ok hmem hname]
      exact .link hsome hmem hname (DependencyGraph.not_reaches_of_path? hname hmem hnone)

end Session

namespace Resolver

variable {s : Session}

/-- The ways in which a task is entered. -/
inductive Enters (r : Resolver) (s : Session) (t : Task) : Session → Prop where
  | cycle (hpath : t.name ∈ s.path) : Enters r s t (s.closeCycle t)
  | disagree {existing : PackageSpec} (hpath : t.name ∉ s.path)
      (hresolved : s.resolved.get? t.name.text = some existing)
      (hholds : t.constraint.holds existing.version = false) :
      Enters r s t (s.report (s.disagreement t existing))
  | reuse {existing : PackageSpec} (hpath : t.name ∉ s.path)
      (hresolved : s.resolved.get? t.name.text = some existing)
      (hholds : t.constraint.holds existing.version = true) (hextras : t.extras.isEmpty = true) :
      Enters r s t (s.recordEdge t)
  | reopen {existing : PackageSpec} (hpath : t.name ∉ s.path)
      (hresolved : s.resolved.get? t.name.text = some existing)
      (hholds : t.constraint.holds existing.version = true) (hextras : t.extras.isEmpty = false) :
      Enters r s t ((s.recordEdge t).descend t.name (t.extraChildren existing))
  | fail {f : SelectionFailure} (hpath : t.name ∉ s.path)
      (hresolved : s.resolved.get? t.name.text = none)
      (hchoose : r.choose t.name t.constraint = .error f) :
      Enters r s t (s.report (s.failure r.context t f))
  | accept {spec : PackageSpec} (hpath : t.name ∉ s.path)
      (hresolved : s.resolved.get? t.name.text = none)
      (hchoose : r.choose t.name t.constraint = .ok spec) :
      Enters r s t (((s.chosen t spec).recordEdge t).descend t.name (Session.tasksOf t spec))

theorem enters (r : Resolver) (s : Session) (t : Task) : r.Enters s t (r.enter s t) := by
  unfold enter
  split
  · rename_i hpath
    exact .cycle hpath
  · rename_i hpath
    split
    · rename_i existing hresolved
      unfold Session.revisit
      split
      · rename_i hholds
        dsimp only
        split
        · rename_i hextras
          exact .reuse hpath hresolved hholds hextras
        · rename_i hextras
          exact .reopen hpath hresolved hholds (by simpa using hextras)
      · rename_i hholds
        exact .disagree hpath hresolved (by simpa using hholds)
    · rename_i hresolved
      split
      · rename_i spec hchoose
        exact .accept hpath hresolved hchoose
      · rename_i f hchoose
        exact .fail hpath hresolved hchoose

/-- A state with something to do enters a task or leaves a package. -/
theorem step_cases {r : Resolver} (h : s.stack ≠ []) :
    (∃ t rest, s.stack = .enter t :: rest ∧ r.step s = r.enter { s with stack := rest } t) ∨
      ∃ name rest, s.stack = .leave name :: rest ∧
        r.step s = { s with stack := rest, path := s.path.erase name } := by
  unfold step
  split
  · contradiction
  · rename_i t rest hstack
    exact .inl ⟨t, rest, hstack, rfl⟩
  · rename_i name rest hstack
    exact .inr ⟨name, rest, hstack, rfl⟩

end Resolver

namespace Resolver

/-- What holds at the start and is kept by one more root, by entering the task on top of the
stack and by leaving the package on top holds in every state of every resolution. -/
theorem Reached.invariant {r : Resolver} {P : List Requirement → Session → Prop}
    (hstart : P [] Session.start)
    (hroot : ∀ roots s root, s.stack = [] → P roots s →
      P (roots ++ [root]) { s with stack := .enter (Task.root root) :: s.stack })
    (henter : ∀ roots s t rest, r.Reached roots s → s.stack = .enter t :: rest → P roots s →
      P roots (r.enter { s with stack := rest } t))
    (hleave : ∀ roots s name rest, s.stack = .leave name :: rest → P roots s →
      P roots { s with stack := rest, path := s.path.erase name })
    {roots : List Requirement} {s : Session} (h : r.Reached roots s) : P roots s := by
  induction h with
  | start => exact hstart
  | root root _ hstack ih => exact hroot _ _ root hstack ih
  | step hreached hstack ih =>
    rcases step_cases hstack with ⟨t, rest, heq, hstep⟩ | ⟨name, rest, heq, hstep⟩
    · rw [hstep]
      exact henter _ _ t rest hreached heq ih
    · rw [hstep]
      exact hleave _ _ name rest heq ih

end Resolver

/-! ### What is never taken back -/

namespace Session

/-- One state has all choices, conflicts and dependencies of another. -/
structure Grows (s s' : Session) : Prop where
  resolved : ∀ name spec, s.resolved.get? name = some spec → s'.resolved.get? name = some spec
  conflicts : ∀ c ∈ s.conflicts, c ∈ s'.conflicts
  edges : ∀ a b, s.graph.Edge a b → s'.graph.Edge a b

variable {s s' s'' : Session} {t : Task}

theorem Grows.refl (s : Session) : s.Grows s := ⟨fun _ _ => id, fun _ => id, fun _ _ => id⟩

theorem Grows.trans (h : s.Grows s') (h' : s'.Grows s'') : s.Grows s'' where
  resolved name spec := h'.resolved name spec ∘ h.resolved name spec
  conflicts c := h'.conflicts c ∘ h.conflicts c
  edges a b := h'.edges a b ∘ h.edges a b

theorem grows_report (s : Session) (c : Conflict) : s.Grows (s.report c) where
  resolved _ _ := id
  conflicts _ := List.mem_append_left _
  edges _ _ := id

theorem grows_descend (s : Session) (name : PackageName) (tasks : List Task) :
    s.Grows (s.descend name tasks) :=
  ⟨fun _ _ => id, fun _ => id, fun _ _ => id⟩

theorem grows_recordEdge (s : Session) (t : Task) : s.Grows (s.recordEdge t) := by
  unfold recordEdge
  split
  · exact .refl s
  · split
    · exact s.grows_report _
    · split
      · rename_i graph hgraph
        obtain ⟨hdependent, hdependency, rfl⟩ := DependencyGraph.eq_link_of_addDependency hgraph
        exact ⟨fun _ _ => id, fun _ => id,
          fun a b hedge => (DependencyGraph.edge_link hdependent hdependency).mpr (.inl hedge)⟩
      · exact .refl s

theorem grows_chosen {spec : PackageSpec} (h : s.resolved.get? t.name.text = none) :
    s.Grows (s.chosen t spec) where
  resolved _ _ := InsertionMap.get?_insert_of_some h
  conflicts _ := id
  edges _ _ := DependencyGraph.edge_add.mpr

end Session

theorem Resolver.Enters.grows {r : Resolver} {s s' : Session} {t : Task} (h : r.Enters s t s') :
    s.Grows s' := by
  cases h with
  | cycle => exact s.grows_report _
  | disagree => exact s.grows_report _
  | reuse => exact s.grows_recordEdge t
  | reopen => exact (s.grows_recordEdge t).trans (Session.grows_descend _ _ _)
  | fail => exact s.grows_report _
  | accept _ hresolved _ =>
    exact (Session.grows_chosen hresolved).trans
      ((Session.grows_recordEdge _ t).trans (Session.grows_descend _ _ _))

theorem Resolver.grows_step (r : Resolver) (s : Session) : s.Grows (r.step s) := by
  unfold step
  split
  · exact .refl s
  · rename_i t rest _
    have hgrows := (r.enters { s with stack := rest } t).grows
    exact ⟨hgrows.resolved, hgrows.conflicts, hgrows.edges⟩
  · exact ⟨fun _ _ => id, fun _ => id, fun _ _ => id⟩

theorem Resolver.grows_run (r : Resolver) (s : Session) : s.Grows (r.run s) := by
  fun_induction run r s with
  | case1 s => exact .refl s
  | case2 s _ ih => exact (r.grows_step s).trans ih

theorem Resolver.grows_resolveRoots (r : Resolver) (roots : List Requirement) (s : Session) :
    s.Grows (roots.foldl r.resolveRoot s) := by
  induction roots generalizing s with
  | nil => exact .refl s
  | cons root roots ih =>
    have hroot := r.grows_run { s with stack := .enter (Task.root root) :: s.stack }
    exact .trans ⟨hroot.resolved, hroot.conflicts, hroot.edges⟩ (ih _)

end Depsolve
