import Depsolve.Proofs.Resolver.Provenance
import Depsolve.Proofs.Resolver.Recursive

/-!
Roots that add nothing to a resolution.

Two things are read off the groups that a root asks for: whether there are any, in which case a
chosen package is entered once more, and the dependencies that the chosen spec has in them.

* `visit_of_chosen`: to enter a chosen package for no dependencies is the same as not to enter it,
  so only the second matters.
* `visit_of_recorded`: where a dependency is met and recorded, to ask for it again changes nothing.
  Hence a resolution without conflicts is a fixed point of every root that it was made for
  (`visit_root_of_entered`, `resolve_repeated_root`).
* `extraChildren_congr`: groups that a spec does not declare bring no tasks. Hence to ask for a
  group that no known version declares changes nothing, whatever the resolution comes to
  (`visit_congr_extras`, `resolve_undeclared_extra`).
-/

namespace Depsolve

/-! ### Dependencies that are recorded -/

/-- A dependency that is recorded is not recorded again, and it closes no cycle. -/
theorem Findings.record_of_edge {f : Findings} {t : Task} (hacyclic : f.graph.Acyclic)
    (h : ∀ p, t.parent = some p → f.graph.Edge p.text t.name.text) : f.record t = f := by
  unfold record
  cases hparent : t.parent with
  | none => rfl
  | some parent =>
    have hedge := h parent hparent
    simp only [DependencyGraph.path?_of_edge hacyclic hedge,
      DependencyGraph.addDependency_eq_ok hedge.dependent_mem hedge.dependency_mem,
      DependencyGraph.link_of_edge hedge]

/-! ### Groups that are declared -/

/-- Elements with an empty image may be left out. -/
theorem flatMap_filter_of_nil {α β : Type} {f : α → List β} {p : α → Bool}
    (h : ∀ x, p x = false → f x = []) (xs : List α) : (xs.filter p).flatMap f = xs.flatMap f := by
  induction xs with
  | nil => rfl
  | cons x xs ih =>
    by_cases hx : p x = true
    · rw [List.filter_cons_of_pos hx, List.flatMap_cons, List.flatMap_cons, ih]
    · rw [List.filter_cons_of_neg hx, List.flatMap_cons, ih, h x (by simpa using hx),
        List.nil_append]

namespace Task

variable {t : Task} {spec : PackageSpec} {groups : SortedSet String}

/-- Only the groups that the spec declares have tasks. -/
theorem extraChildren_eq_declared (t : Task) (spec : PackageSpec) :
    t.extraChildren spec =
      (t.extras.toList.filter fun group => (spec.extra group).isSome).flatMap fun group =>
        match spec.extra group with
        | some deps => children t.name (.extra group) deps
        | none => [] := by
  refine (flatMap_filter_of_nil (fun group hundeclared => ?_) t.extras.toList).symm
  rw [Option.isSome_eq_false_iff, Option.isNone_iff_eq_none] at hundeclared
  rw [hundeclared]

/-- Tasks for the same declared groups of a package are the same. -/
theorem extraChildren_congr
    (h : ∀ group, (spec.extra group).isSome = true →
      (group ∈ groups.toList ↔ group ∈ t.extras.toList)) :
    ({ t with extras := groups } : Task).extraChildren spec = t.extraChildren spec := by
  have hdeclared : groups.toList.filter (fun group => (spec.extra group).isSome) =
      t.extras.toList.filter fun group => (spec.extra group).isSome := by
    apply SortedSet.eq_of_ascending (groups.ascending_toList.filter _)
      (t.extras.ascending_toList.filter _)
    intro group
    rw [List.mem_filter, List.mem_filter]
    exact and_congr_left (h group)
  rw [extraChildren_eq_declared, extraChildren_eq_declared, hdeclared]

end Task

namespace Resolver

variable {r : Resolver} {roots : List Requirement} {root : Requirement}
  {path : List PackageName} {t : Task} {tasks : List Task} {f : Findings}
  {existing : PackageSpec}

/-! ### Visits of chosen packages -/

/-- The visit of a chosen package records the dependency on it and visits what it has in the
groups that are asked for. If that is nothing, it makes no difference whether the package is
entered for it. -/
theorem visit_of_chosen (hpath : t.name ∉ path)
    (hresolved : f.resolved.get? t.name.text = some existing)
    (hholds : t.constraint.holds existing.version = true) :
    r.visit path t f =
      r.visitAll (path ++ [t.name]) (t.extraChildren existing) (f.record t) := by
  rw [visit, if_neg hpath]
  simp only [hresolved, if_pos hholds]
  by_cases hextras : t.extras.isEmpty = true
  · rw [if_pos hextras, Task.extraChildren_of_isEmpty hextras, visitAll]
  · rw [if_neg hextras]

theorem visitAll_eq_self (h : ∀ t ∈ tasks, r.visit path t f = f) :
    r.visitAll path tasks f = f := by
  induction tasks with
  | nil => rw [visitAll]
  | cons t tasks ih =>
    rw [visitAll, h t List.mem_cons_self]
    exact ih fun u hu => h u (List.mem_cons_of_mem _ hu)

/-- A task that is met and recorded and asks for no groups changes nothing. -/
theorem visit_of_recorded (hacyclic : f.graph.Acyclic) (hpath : t.name ∉ path)
    (hresolved : f.resolved.get? t.name.text = some existing)
    (hholds : t.constraint.holds existing.version = true)
    (hedge : ∀ p, t.parent = some p → f.graph.Edge p.text t.name.text)
    (hextras : t.extras.isEmpty = true) : r.visit path t f = f := by
  rw [visit_of_chosen hpath hresolved hholds, Task.extraChildren_of_isEmpty hextras, visitAll,
    Findings.record_of_edge hacyclic hedge]

/-! ### Roots that come again -/

/-- What the visits of some roots find is held by a state that the worklist reaches. -/
theorem reached_visitRoots (r : Resolver) (roots : List Requirement) :
    r.Reached roots ((r.visitRoots roots Findings.start).session [] []) := by
  rw [← afterRoots_eq]
  exact (r.reached_afterRoots roots).1

/-- The visits of some roots find what the answer says. -/
theorem conflicts_visitRoots (r : Resolver) (roots : List Requirement) :
    (r.visitRoots roots Findings.start).conflicts = (r.resolve roots).conflicts := by
  rw [r.conflicts_resolve, afterRoots_eq]
  rfl

/-- A root that was entered without any conflict changes nothing when it comes again: its package
is chosen, and the dependencies in its groups are met and recorded. -/
theorem visit_root_of_entered (hacyclic : f.graph.Acyclic) (hclean : f.conflicts = [])
    (hentered : (f.session [] []).Entered r root) : r.visit [] (Task.root root) f = f := by
  obtain ⟨spec, hresolved, hholds, hedge⟩ := hentered.settled.satisfied_of_clean hclean
  have hrecord : f.record (Task.root root) = f := Findings.record_of_edge hacyclic hedge
  have hvisit : r.visit [] (Task.root root) f =
      r.visitAll [(Task.root root).name] ((Task.root root).extraChildren spec)
        (f.record (Task.root root)) :=
    visit_of_chosen (t := Task.root root) (f := f) List.not_mem_nil hresolved hholds
  rw [hvisit, hrecord]
  apply visitAll_eq_self
  intro u hu
  have hsettled : Settled r (f.session [] []) (some (PackageName.of root.name)) u.name
      u.constraint :=
    (hentered.extras spec hresolved hholds _ (Task.offers_of_mem_extraChildren hu)).settled rfl
  obtain ⟨dependency, hmet, hsatisfies, hlinked⟩ := hsettled.satisfied_of_clean hclean
  have hedge : f.graph.Edge (PackageName.of root.name).text u.name.text := hlinked _ rfl
  apply visit_of_recorded hacyclic ?_ hmet hsatisfies
  · intro p hp
    rw [Task.parent_of_mem_extraChildren hu] at hp
    cases hp
    exact hedge
  · rw [Task.extras_of_mem_extraChildren hu]
    rfl
  · -- a package that depends on itself would be a cycle
    intro hself
    rw [List.mem_singleton] at hself
    rw [hself] at hedge
    exact hacyclic _ (.single hedge)

/-- A resolution without conflicts stays as it is when one of its roots comes again, with the
groups that it asks for. -/
theorem resolve_repeated_root (r : Resolver) {roots : List Requirement} {root : Requirement}
    (hroot : root ∈ roots) (hsuccess : (r.resolve roots).isSuccessful = true) :
    r.resolve (roots ++ [root]) = r.resolve roots := by
  have hreached := r.reached_visitRoots roots
  have hclean : (r.visitRoots roots Findings.start).conflicts = [] := by
    rw [conflicts_visitRoots]
    exact List.isEmpty_iff.mp hsuccess
  have hagain : r.visit [] (Task.root root) (r.visitRoots roots Findings.start) =
      r.visitRoots roots Findings.start :=
    visit_root_of_entered hreached.coherent.acyclic hclean
      (hreached.accounted.settled_root rfl hroot)
  rw [resolve_eq_finish, resolve_eq_finish, afterRoots_eq, afterRoots_eq, visitRoots_concat,
    hagain]

/-- The report is asked for with its group, and both packages are there already. -/
theorem resolve_repeated_root_rendered :
    rendered ∈ [Requirement.new "renderer" Constraint.any, rendered] ∧
      (reports.resolve [Requirement.new "renderer" Constraint.any, rendered]).isSuccessful =
        true ∧
      reports.resolve [Requirement.new "renderer" Constraint.any, rendered, rendered] =
        reports.resolve [Requirement.new "renderer" Constraint.any, rendered] := by
  have hroot : rendered ∈ [Requirement.new "renderer" Constraint.any, rendered] := by simp
  have hsuccess : (reports.resolve
      [Requirement.new "renderer" Constraint.any, rendered]).isSuccessful = true := by cbv
  exact ⟨hroot, hsuccess, resolve_repeated_root reports hroot hsuccess⟩

/-! ### Groups that nobody declares -/

/-- A visit depends on those groups only that a known version of the package declares. -/
theorem visit_congr_extras {groups : SortedSet String}
    (hchosen : ∀ spec, f.resolved.get? t.name.text = some spec → r.registry.Knows t.name spec)
    (h : ∀ spec, r.registry.Knows t.name spec → ∀ group, (spec.extra group).isSome = true →
      (group ∈ groups.toList ↔ group ∈ t.extras.toList)) :
    r.visit path { t with extras := groups } f = r.visit path t f := by
  by_cases hpath : t.name ∈ path
  · rw [visit, visit, if_pos hpath, if_pos hpath]
  cases hresolved : f.resolved.get? t.name.text with
  | some existing =>
    by_cases hholds : t.constraint.holds existing.version = true
    · have hchildren := Task.extraChildren_congr (h existing (hchosen existing hresolved))
      rw [visit_of_chosen hpath hresolved hholds, ← hchildren]
      exact visit_of_chosen (t := { t with extras := groups }) hpath hresolved hholds
    · -- the disagreement is about the constraint and does not name the groups
      rw [visit, visit, if_neg hpath, if_neg hpath]
      simp only [hresolved, if_neg hholds]
      rfl
  | none =>
    rw [visit_of_new hpath hresolved,
      visit_of_new (t := { t with extras := groups }) hpath hresolved]
    cases hchoose : r.choose t.name t.constraint with
    | error failure => rfl
    | ok spec =>
      simp only [Task.extraChildren_congr (h spec (knows_of_choose hchoose))]
      rfl

/-- A root may ask for a group that no known version of its package declares: the resolution
stays as it is, with or without conflicts and wherever the root stands. -/
theorem resolve_undeclared_extra (r : Resolver) (before after : List Requirement)
    (root : Requirement) (group : String)
    (hundeclared : ∀ spec, r.registry.Knows (PackageName.of root.name) spec →
      spec.extra group = none) :
    r.resolve (before ++ { root with extras := root.extras.add group } :: after) =
      r.resolve (before ++ root :: after) := by
  have hroots : ∀ root', r.visitRoots (before ++ root' :: after) Findings.start =
      r.visitRoots after (r.visit [] (Task.root root') (r.visitRoots before Findings.start)) := by
    intro root'
    rw [visitRoots, visitRoots, visitRoots, List.foldl_append, List.foldl_cons]
  have hvisit :
      r.visit [] (Task.root { root with extras := root.extras.add group })
          (r.visitRoots before Findings.start) =
        r.visit [] (Task.root root) (r.visitRoots before Findings.start) := by
    apply visit_congr_extras (t := Task.root root)
    · intro spec hspec
      exact (r.reached_visitRoots before).accounted.knows hspec
    · intro spec hknows declared hdeclared
      have hne : declared ≠ group := by
        rintro rfl
        rw [hundeclared spec hknows] at hdeclared
        cases hdeclared
      exact SortedSet.mem_toList_add.trans (or_iff_right hne)
  rw [resolve_eq_finish, resolve_eq_finish, afterRoots_eq, afterRoots_eq, hroots, hroots, hvisit]

/-- The report has a group that is rendered and none of documents. -/
theorem resolve_undeclared_extra_documents :
    (∀ spec, reports.registry.Knows (PackageName.of rendered.name) spec →
        spec.extra "Documents" = none) ∧
      reports.resolve [Requirement.new "report" Constraint.any,
          { rendered with extras := rendered.extras.add "Documents" }] =
        reports.resolve [Requirement.new "report" Constraint.any, rendered] := by
  have hundeclared : ∀ spec, reports.registry.Knows (PackageName.of rendered.name) spec →
      spec.extra "Documents" = none := by
    intro spec hknows
    have hfill : reports.registry = Registry.empty.fill [.add report, .add renderer] :=
      congrArg Resolver.registry (after_eq (new Context.default) [.add report, .add renderer])
    rw [hfill] at hknows
    obtain ⟨c, hc, rfl⟩ := Registry.exists_call_of_knows hknows
    rcases List.mem_pair.mp hc with rfl | rfl
    · decide +kernel
    · decide +kernel
  exact ⟨hundeclared, resolve_undeclared_extra reports
    [Requirement.new "report" Constraint.any] [] rendered "Documents" hundeclared⟩

end Resolver

end Depsolve
