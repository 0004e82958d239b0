import Depsolve.Proofs.Graph.InstallationOrder
import Depsolve.Proofs.Resolver.Reached

/-!
The parts of a session stay in step, in every state of every resolution.

* `Nested` couples the stack with the path: the marks on the stack spell the path, and above
  the mark of a package there are tasks of that package only.
* `Coherent` adds that the graph has the choices as its packages, that the path is a chain
  of dependencies between chosen packages, and that the graph has no cycle.
* `Entering.step` is the step, `Reached.coherent` the run.
* `resolution_graph_acyclic` draws the conclusion for the answer: there is always an order of
  installation, and it lists what was chosen.
-/

namespace Depsolve

/-! ### Stack and path -/

/-- How stack and path belong together, from the bottom of the stack: a mark adds its package
to the path, and a task stands above the mark of the package that asks for it. -/
inductive Nested : List Frame → List PackageName → Prop where
  | empty : Nested [] []
  | root {t : Task} (hparent : t.parent = none) : Nested [.enter t] []
  | leave {name : PackageName} {stack : List Frame} {path : List PackageName}
      (h : Nested stack path) (hnew : name ∉ path) :
      Nested (.leave name :: stack) (path ++ [name])
  | child {t : Task} {parent : PackageName} {stack : List Frame} {path : List PackageName}
      (h : Nested stack (path ++ [parent])) (hparent : t.parent = some parent)
      (hextras : t.extras = SortedMap.empty) :
      Nested (.enter t :: stack) (path ++ [parent])

/-- Where a task is entered: a root at the start of a path, any other below its parent. -/
def Task.At (t : Task) (path : List PackageName) : Prop :=
  (t.parent = none ∧ path = []) ∨
    ∃ before parent, t.parent = some parent ∧ path = before ++ [parent] ∧
      t.extras = SortedMap.empty

namespace Nested

variable {t : Task} {name : PackageName} {stack : List Frame} {path : List PackageName}

theorem of_enter (h : Nested (.enter t :: stack) path) : Nested stack path ∧ t.At path := by
  cases h with
  | root hparent => exact ⟨.empty, .inl ⟨hparent, rfl⟩⟩
  | child h hparent hextras => exact ⟨h, .inr ⟨_, _, hparent, rfl, hextras⟩⟩

theorem of_leave (h : Nested (.leave name :: stack) path) :
    ∃ before, path = before ++ [name] ∧ name ∉ before ∧ Nested stack before := by
  cases h with
  | leave h hnew => exact ⟨_, rfl, hnew, h⟩

theorem path_of_nil (h : Nested [] path) : path = [] := by
  cases h
  rfl

/-- The tasks of a package that is entered go above its mark. -/
theorem descend (h : Nested stack path) (hnew : name ∉ path) {tasks : List Task}
    (htasks : ∀ t ∈ tasks, t.parent = some name ∧ t.extras = SortedMap.empty) :
    Nested (tasks.map .enter ++ .leave name :: stack) (path ++ [name]) := by
  induction tasks with
  | nil => exact .leave h hnew
  | cons t tasks ih =>
    obtain ⟨hparent, hextras⟩ := htasks t List.mem_cons_self
    exact .child (ih fun u hu => htasks u (List.mem_cons_of_mem _ hu)) hparent hextras

theorem path_nodup (h : Nested stack path) : path.Nodup := by
  induction h with
  | empty => exact .nil
  | root => exact .nil
  | leave _ hnew ih =>
    refine List.nodup_append.mpr ⟨ih, by simp, fun n hn m hm heq => hnew ?_⟩
    rwa [← List.mem_singleton.mp hm, ← heq]
  | child _ _ _ ih => exact ih

end Nested

theorem Task.parent_of_mem_children {parent : PackageName} {kind : DependencyKind}
    {deps : Dependencies} {t : Task} (h : t ∈ Task.children parent kind deps) :
    t.parent = some parent := by
  obtain ⟨_, _, rfl⟩ := List.mem_map.mp h
  rfl

theorem Task.parent_of_mem_extraChildren {t u : Task} {spec : PackageSpec}
    (h : u ∈ t.extraChildren spec) : u.parent = some t.name := by
  obtain ⟨group, _, h⟩ := List.mem_flatMap.mp h
  split at h
  · exact Task.parent_of_mem_children h
  · cases h

namespace Session

theorem of_mem_tasksOf {t u : Task} {spec : PackageSpec} (h : u ∈ tasksOf t spec) :
    u.parent = some t.name ∧ u.extras = SortedMap.empty := by
  rcases List.mem_append.mp h with h | h
  · exact ⟨Task.parent_of_mem_children h, Task.extras_of_mem_children h⟩
  · exact ⟨Task.parent_of_mem_extraChildren h, Task.extras_of_mem_extraChildren h⟩

/-! ### The invariant -/

/-- What holds in every state of a resolution. -/
structure Coherent (s : Session) : Prop where
  nested : Nested s.stack s.path
  mirrored : s.graph.packages = s.resolved.entries.map fun e => ⟨e.1, e.2.version⟩
  keys_normal : ∀ n ∈ s.resolved.keys, normalize n = n
  path_resolved : ∀ n ∈ s.path, n.text ∈ s.resolved.keys
  path_linked : s.path.IsChain fun a b => s.graph.Edge a.text b.text
  acyclic : s.graph.Acyclic

variable {s s' : Session} {t : Task}

/-- The names of the graph are the chosen names, in the order of the choices. -/
theorem Coherent.names_eq (h : s.Coherent) : s.graph.names = s.resolved.keys := by
  rw [DependencyGraph.names, h.mirrored, List.map_map]
  rfl

/-- The keys of the chosen packages are names in normal form. -/
theorem Coherent.packageName (h : s.Coherent) {n : String} {spec : PackageSpec}
    (hn : s.resolved.get? n = some spec) : ∃ name : PackageName, name.text = n :=
  ⟨⟨n, h.keys_normal n (InsertionMap.mem_keys_of_get? hn)⟩, rfl⟩

theorem coherent_start : start.Coherent where
  nested := .empty
  mirrored := rfl
  keys_normal _ h := absurd h List.not_mem_nil
  path_resolved _ h := absurd h List.not_mem_nil
  path_linked := .nil
  acyclic := DependencyGraph.acyclic_empty

theorem Coherent.report (h : s.Coherent) (c : Conflict) : (s.report c).Coherent :=
  ⟨h.nested, h.mirrored, h.keys_normal, h.path_resolved, h.path_linked, h.acyclic⟩

/-- The choice of a new package adds it to the graph, where nothing is linked to it. -/
theorem Coherent.chosen (h : s.Coherent) (hnew : s.resolved.get? t.name.text = none)
    (spec : PackageSpec) : (s.chosen t spec).Coherent := by
  have hentries := InsertionMap.entries_insert_of_new hnew spec
  have hname : t.name.text ∉ s.graph.names := by
    rw [h.names_eq]
    exact InsertionMap.not_mem_keys_of_get? hnew
  have hkeys : (s.chosen t spec).resolved.keys = s.resolved.keys ++ [t.name.text] := by
    simp only [Session.chosen, InsertionMap.keys, hentries, List.map_append, List.map_cons,
      List.map_nil]
  exact {
    nested := h.nested
    mirrored := by
      simp only [Session.chosen, hentries, List.map_append, List.map_cons, List.map_nil]
      rw [DependencyGraph.packages_add_of_new hname, h.mirrored]
    keys_normal := fun n hn => by
      rw [hkeys] at hn
      rcases List.mem_append.mp hn with hn | hn
      · exact h.keys_normal n hn
      · rw [List.mem_singleton.mp hn]
        exact t.name.normal
    path_resolved := fun n hn => by
      rw [hkeys]
      exact List.mem_append_left _ (h.path_resolved n hn)
    path_linked := h.path_linked.imp fun _ _ => DependencyGraph.edge_add.mpr
    acyclic := h.acyclic.add }

/-- Recording a dependency between chosen packages links them or reports a cycle. -/
theorem Coherent.recordEdge (h : s.Coherent) (hrecords : s.Records t s') : s'.Coherent := by
  cases hrecords with
  | root => exact h
  | cycle => exact h.report _
  | link hparent hdependent hdependency hback =>
    exact {
      nested := h.nested
      mirrored := (DependencyGraph.packages_link hdependent hdependency).trans h.mirrored
      keys_normal := h.keys_normal
      path_resolved := h.path_resolved
      path_linked := h.path_linked.imp fun _ _ hedge =>
        (DependencyGraph.edge_link hdependent hdependency).mpr (.inl hedge)
      acyclic := h.acyclic.link hdependent hdependency hback }

/-- A chosen package that the end of the path depends on is entered. -/
theorem Coherent.descend (h : s.Coherent) {name : PackageName} {tasks : List Task}
    (hnew : name ∉ s.path) (hresolved : name.text ∈ s.resolved.keys)
    (hlast : ∀ n ∈ s.path.getLast?, s.graph.Edge n.text name.text)
    (htasks : ∀ t ∈ tasks, t.parent = some name ∧ t.extras = SortedMap.empty) :
    (s.descend name tasks).Coherent where
  nested := h.nested.descend hnew htasks
  mirrored := h.mirrored
  keys_normal := h.keys_normal
  path_resolved n hn := by
    rcases List.mem_append.mp hn with hn | hn
    · exact h.path_resolved n hn
    · rw [List.mem_singleton.mp hn]
      exact hresolved
  path_linked := by
    refine List.isChain_append.mpr ⟨h.path_linked, .singleton _, fun n hn m hm => ?_⟩
    cases hm
    exact hlast n hn
  acyclic := h.acyclic

/-! ### Entering a task -/

/-- A coherent state out of which a task was taken that is to be entered now. -/
structure Entering (s : Session) (t : Task) : Prop where
  coherent : s.Coherent
  position : t.At s.path

theorem Coherent.entering (h : s.Coherent) {rest : List Frame}
    (hstack : s.stack = .enter t :: rest) : Entering { s with stack := rest } t := by
  obtain ⟨hnested, hposition⟩ := Nested.of_enter (hstack ▸ h.nested)
  exact ⟨⟨hnested, h.mirrored, h.keys_normal, h.path_resolved, h.path_linked, h.acyclic⟩,
    hposition⟩

/-- The package that asks for a task is chosen: it is at the end of the path. -/
theorem Entering.parent_resolved (h : s.Entering t) {p : PackageName} (hp : t.parent = some p) :
    p.text ∈ s.resolved.keys := by
  rcases h.position with ⟨hnone, _⟩ | ⟨before, parent, hparent, hpath, _⟩
  · rw [hnone] at hp
    cases hp
  · rw [hparent] at hp
    cases hp
    exact h.coherent.path_resolved p (by simp [hpath])

theorem Entering.last_of_path (h : s.Entering t) {n : PackageName} (hn : n ∈ s.path.getLast?) :
    t.parent = some n := by
  rcases h.position with ⟨_, hpath⟩ | ⟨before, parent, hparent, hpath, _⟩
  · rw [hpath] at hn
    cases hn
  · rw [hpath, List.getLast?_concat] at hn
    cases hn
    exact hparent

theorem Entering.mem_names (h : s.Entering t) {existing : PackageSpec}
    (hresolved : s.resolved.get? t.name.text = some existing) :
    t.name.text ∈ s.graph.names ∧ ∀ p, t.parent = some p → p.text ∈ s.graph.names := by
  rw [h.coherent.names_eq]
  exact ⟨InsertionMap.mem_keys_of_get? hresolved, fun p hp => h.parent_resolved hp⟩

/-- The dependency on a package that was chosen before can be recorded. -/
theorem Entering.records (h : s.Entering t) {existing : PackageSpec}
    (hresolved : s.resolved.get? t.name.text = some existing) :
    s.Records t (s.recordEdge t) := by
  obtain ⟨hname, hparent⟩ := h.mem_names hresolved
  exact s.records t hname hparent

theorem Entering.mem_names_chosen (h : s.Entering t) (spec : PackageSpec) :
    t.name.text ∈ (s.chosen t spec).graph.names ∧
      ∀ p, t.parent = some p → p.text ∈ (s.chosen t spec).graph.names := by
  refine ⟨DependencyGraph.mem_names_add.mpr (.inr rfl), fun p hp => ?_⟩
  refine DependencyGraph.mem_names_add.mpr (.inl ?_)
  rw [h.coherent.names_eq]
  exact h.parent_resolved hp

/-- The dependency on a package that is chosen now can be recorded. -/
theorem Entering.records_chosen (h : s.Entering t) (spec : PackageSpec) :
    (s.chosen t spec).Records t ((s.chosen t spec).recordEdge t) := by
  obtain ⟨hname, hparent⟩ := h.mem_names_chosen spec
  exact (s.chosen t spec).records t hname hparent

theorem not_edge_chosen (h : s.Coherent) (hnew : s.resolved.get? t.name.text = none)
    (spec : PackageSpec) (n : String) : ¬ (s.chosen t spec).graph.Edge t.name.text n := by
  intro hedge
  have hmem := (DependencyGraph.edge_add.mp hedge).dependent_mem
  rw [h.names_eq] at hmem
  exact InsertionMap.not_mem_keys_of_get? hnew hmem

/-- The dependency on a package that was just chosen is recorded and closes no cycle, since
the package has no dependencies yet. -/
theorem Entering.edge_of_chosen (h : s.Entering t) (hnew : s.resolved.get? t.name.text = none)
    {spec : PackageSpec} (hrecords : (s.chosen t spec).Records t s') {p : PackageName}
    (hp : t.parent = some p) : s'.graph.Edge p.text t.name.text := by
  cases hrecords with
  | root hroot =>
    rw [hroot] at hp
    cases hp
  | cycle hsome hchain =>
    rw [hsome] at hp
    cases hp
    have heq := hchain.eq_of_no_edge (not_edge_chosen h.coherent hnew spec)
    exact absurd (heq ▸ h.parent_resolved hsome) (InsertionMap.not_mem_keys_of_get? hnew)
  | link hsome hdependent hdependency _ =>
    rw [hsome] at hp
    cases hp
    exact (DependencyGraph.edge_link hdependent hdependency).mpr (.inr ⟨rfl, rfl⟩)

@[simp] theorem path_recordEdge (s : Session) (t : Task) : (s.recordEdge t).path = s.path := by
  unfold recordEdge
  repeat' split
  all_goals rfl

/-- Entering a task keeps the parts of the session in step. -/
theorem Entering.step {r : Resolver} (h : s.Entering t) (henters : r.Enters s t s') :
    s'.Coherent := by
  cases henters with
  | cycle => exact h.coherent.report _
  | disagree => exact h.coherent.report _
  | fail => exact h.coherent.report _
  | reuse _ hresolved => exact h.coherent.recordEdge (h.records hresolved)
  | reopen hpath hresolved _ hextras =>
    -- Only a root asks for groups, and a root is entered with the path empty.
    have hempty : s.path = [] := by
      rcases h.position with ⟨_, hpath⟩ | ⟨_, _, _, _, hnone⟩
      · exact hpath
      · rw [hnone] at hextras
        cases hextras
    refine (h.coherent.recordEdge (h.records hresolved)).descend ?_ ?_ ?_ fun u hu =>
      ⟨Task.parent_of_mem_extraChildren hu, Task.extras_of_mem_extraChildren hu⟩
    · rwa [path_recordEdge]
    · rw [resolved_recordEdge]
      exact InsertionMap.mem_keys_of_get? hresolved
    · simp [hempty]
  | @accept spec hpath hnew _ =>
    have hrecords := h.records_chosen spec
    refine ((h.coherent.chosen hnew spec).recordEdge hrecords).descend ?_ ?_ (fun n hn => ?_)
      fun u hu => of_mem_tasksOf hu
    · rwa [path_recordEdge]
    · rw [resolved_recordEdge]
      exact InsertionMap.mem_keys_iff.mpr ⟨spec, by simp [chosen, InsertionMap.get?_insert]⟩
    · rw [path_recordEdge] at hn
      exact h.edge_of_chosen hnew hrecords (h.last_of_path hn)

/-- Leaving a package takes it off the end of the path. -/
theorem Coherent.leave (h : s.Coherent) {name : PackageName} {rest : List Frame}
    (hstack : s.stack = .leave name :: rest) :
    Coherent { s with stack := rest, path := s.path.erase name } := by
  obtain ⟨before, hpath, hnew, hnested⟩ := Nested.of_leave (hstack ▸ h.nested)
  have herase : s.path.erase name = before := by
    rw [hpath, List.erase_append_right _ hnew, List.erase_cons_head, List.append_nil]
  rw [herase]
  exact {
    nested := hnested
    mirrored := h.mirrored
    keys_normal := h.keys_normal
    path_resolved := fun n hn => h.path_resolved n (by simp [hpath, hn])
    path_linked := (List.isChain_append.mp (hpath ▸ h.path_linked)).1
    acyclic := h.acyclic }

theorem Coherent.pushRoot (h : s.Coherent) (hstack : s.stack = []) (root : Requirement) :
    Coherent { s with stack := .enter (Task.root root) :: s.stack } := by
  have hpath : s.path = [] := Nested.path_of_nil (hstack ▸ h.nested)
  exact {
    nested := by
      rw [hstack, hpath]
      exact .root rfl
    mirrored := h.mirrored
    keys_normal := h.keys_normal
    path_resolved := h.path_resolved
    path_linked := h.path_linked
    acyclic := h.acyclic }

end Session

/-- The invariant holds in every state of every resolution. -/
theorem Resolver.Reached.coherent {r : Resolver} {roots : List Requirement} {s : Session}
    (h : r.Reached roots s) : s.Coherent := by
  refine h.invariant (P := fun _ s => s.Coherent) Session.coherent_start ?_ ?_ ?_
  · intro _ _ root hstack hcoherent
    exact hcoherent.pushRoot hstack root
  · intro _ _ t _ _ hstack hcoherent
    exact (hcoherent.entering hstack).step (r.enters _ t)
  · intro _ _ _ _ hstack hcoherent
    exact hcoherent.leave hstack

/-! ### The answer of a resolution -/

/-- A coherent session comes to an answer with an order of installation, in which the chosen
packages stand, each after those it is linked to. -/
theorem Session.Coherent.finish {s : Session} (h : s.Coherent) :
    ∃ order, s.graph.installationOrder = .ok order ∧
      s.finish = ⟨s.resolved, s.conflicts, order.map (·.name)⟩ ∧
      (order.map (·.name)).Nodup ∧ (order.map (·.name)).Perm s.resolved.keys ∧
      ∀ a b, s.graph.Edge a b →
        (order.map (·.name)).idxOf b < (order.map (·.name)).idxOf a := by
  obtain ⟨order, horder, hperm, hfirst⟩ :=
    DependencyGraph.installationOrder_of_acyclic h.acyclic
  have hdistinct : (order.map (·.name)).Nodup := hperm.nodup_iff.mpr s.graph.nodup_names
  refine ⟨order, horder, ?_, hdistinct, h.names_eq ▸ hperm, fun a b hedge => ?_⟩
  · simp only [Session.finish, horder]
  · exact hfirst.idxOf_lt hdistinct (hperm.mem_iff.mpr hedge.dependent_mem) hedge

/-- An answer has the choices of the state that it is read off. -/
theorem Resolver.resolved_resolve (r : Resolver) (roots : List Requirement) :
    (r.resolve roots).resolved = (r.afterRoots roots).resolved := by
  obtain ⟨order, -, hfinish, -⟩ := (r.reached_afterRoots roots).1.coherent.finish
  rw [r.resolve_eq_finish, hfinish]

/-- An answer has the conflicts of the state that it is read off, and no other. -/
theorem Resolver.conflicts_resolve (r : Resolver) (roots : List Requirement) :
    (r.resolve roots).conflicts = (r.afterRoots roots).conflicts := by
  obtain ⟨order, -, hfinish, -⟩ := (r.reached_afterRoots roots).1.coherent.finish
  rw [r.resolve_eq_finish, hfinish]

/-- In every state of every resolution the graph has no cycle, its packages are the chosen
ones in the order of the choices, its links join chosen packages, and the package that asks
for the task on top can be linked to the one it asks for, chosen before or just now. So the
answer has an order of installation; it lists every chosen package once and after those that
it is linked to. -/
theorem resolution_graph_acyclic (r : Resolver) (roots : List Requirement) :
    (∀ visited s, r.Reached visited s →
      s.graph.Acyclic ∧
      s.graph.packages = s.resolved.entries.map (fun e => ⟨e.1, e.2.version⟩) ∧
      (∀ l ∈ s.graph.links,
        l.dependent ∈ s.resolved.keys ∧ l.dependency ∈ s.resolved.keys) ∧
      ∀ t rest parent edge, s.stack = .enter t :: rest → t.parent = some parent →
        (∀ existing, s.resolved.get? t.name.text = some existing →
          ∃ g, s.graph.addDependency parent.text t.name.text edge = .ok g) ∧
        ∀ spec : PackageSpec, s.resolved.get? t.name.text = none →
          ∃ g, (s.graph.add ⟨t.name.text, spec.version⟩).addDependency parent.text t.name.text
            edge = .ok g) ∧
    r.Reached roots (r.afterRoots roots) ∧
    (∃ order, (r.afterRoots roots).graph.installationOrder = .ok order ∧
      r.resolve roots =
        ⟨(r.afterRoots roots).resolved, (r.afterRoots roots).conflicts, order.map (·.name)⟩) ∧
    (r.resolve roots).order.Nodup ∧
    (r.resolve roots).order.Perm (r.resolve roots).resolved.keys ∧
    ∀ a b, (r.afterRoots roots).graph.Edge a b →
      (r.resolve roots).order.idxOf b < (r.resolve roots).order.idxOf a := by
  constructor
  · intro visited s hreached
    have hcoherent := hreached.coherent
    refine ⟨hcoherent.acyclic, hcoherent.mirrored, fun l hl => ?_, ?_⟩
    · rw [← hcoherent.names_eq]
      exact s.graph.ends_known l hl
    · intro t rest parent edge hstack hparent
      have hentering := hcoherent.entering hstack
      constructor
      · intro existing hresolved
        obtain ⟨hname, hasking⟩ := hentering.mem_names hresolved
        exact ⟨_, DependencyGraph.addDependency_eq_ok (hasking parent hparent) hname edge⟩
      · intro spec _
        obtain ⟨hname, hasking⟩ := hentering.mem_names_chosen spec
        exact ⟨_, DependencyGraph.addDependency_eq_ok (hasking parent hparent) hname edge⟩
  · have hreached := (r.reached_afterRoots roots).1
    obtain ⟨order, horder, hfinish, hdistinct, hperm, hfirst⟩ := hreached.coherent.finish
    rw [r.resolve_eq_finish, hfinish]
    exact ⟨hreached, ⟨order, horder, rfl⟩, hdistinct, hperm, hfirst⟩

end Depsolve
