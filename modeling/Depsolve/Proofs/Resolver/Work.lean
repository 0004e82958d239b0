import Depsolve.Proofs.Resolver.Accounted
import Mathlib.Algebra.Order.BigOperators.Group.List
import Mathlib.Algebra.Order.Ring.Nat

/-!
How much work a resolution does.

* `Drains` writes the loop out as the states in which it takes a frame off the stack, and
  `Works` does so for one root after another. Both end with nothing left to do.
* `Enters.cost` pays for the tasks of a step: a choice pays for the required dependencies of
  its spec, and a root pays for the groups that it asks for. No other task asks for groups, so
  once the root is entered a run costs what the choices pay (`Drains.cost`).
* `work_bounded` puts the roots together: the loop ends, chooses no package twice and enters
  no more tasks than roots, required dependencies and wanted extras pay for.
-/

namespace Depsolve

variable {r : Resolver} {roots : List Requirement} {s s' : Session} {t : Task}
  {states : List Session} {resolved resolved' : InsertionMap String PackageSpec}

/-! ### What is counted -/

/-- The task of a frame, unless it is a mark. -/
def Frame.task? : Frame → Option Task
  | enter task => some task
  | leave _ => none

/-- The task that the next step enters, unless it leaves a package. -/
def Session.next? (s : Session) : Option Task := s.stack.head?.bind Frame.task?

/-- The package for which the next step chooses a version, if it does so. -/
def Resolver.chooses? (r : Resolver) (s : Session) : Option String :=
  s.next?.bind fun t =>
    if t.name ∉ s.path ∧ s.resolved.get? t.name.text = none then
      (r.choose t.name t.constraint).toOption.map fun _ => t.name.text
    else none

/-- The tasks on a stack. -/
def pendingTasks (stack : List Frame) : List Task := stack.filterMap Frame.task?

/-- The number of required dependencies of the chosen packages. -/
def requiredCount (resolved : InsertionMap String PackageSpec) : Nat :=
  (resolved.entries.map fun e => e.2.dependencies.size).sum

/-- The number of dependencies in some groups of a spec, as far as the spec declares them. -/
def PackageSpec.offeredCount (spec : PackageSpec) (groups : SortedSet String) : Nat :=
  (groups.toList.map fun group => ((spec.extra group).map SortedMap.size).getD 0).sum

/-- The number of dependencies in some groups of a package, which has none before a version
of it is chosen. -/
def offeredBy (resolved : InsertionMap String PackageSpec) (name : String)
    (groups : SortedSet String) : Nat :=
  ((resolved.get? name).map (·.offeredCount groups)).getD 0

/-! ### The loop written out -/

/-- The loop goes through some states, in each of which it takes a frame off the stack, and
ends where the stack is empty. -/
inductive Resolver.Drains (r : Resolver) : Session → List Session → Session → Prop where
  | done {s : Session} (hstack : s.stack = []) : Drains r s [] s
  | step {s s' : Session} {states : List Session} (hstack : s.stack ≠ [])
      (h : Drains r (r.step s) states s') : Drains r s (s :: states) s'

/-- The loop is run for one root after another. -/
inductive Resolver.Works (r : Resolver) : List Requirement → List Session → Session → Prop where
  | start : Works r [] [] Session.start
  | root {roots : List Requirement} {states states' : List Session} {s s' : Session}
      (root : Requirement) (h : Works r roots states s)
      (hdrains : r.Drains { s with stack := .enter (Task.root root) :: s.stack } states' s') :
      Works r (roots ++ [root]) (states ++ states') s'

namespace Resolver

/-- The loop ends in the state that a run comes to. -/
theorem drains_run (r : Resolver) (s : Session) : ∃ states, r.Drains s states (r.run s) := by
  fun_induction run r s with
  | case1 s hnil => exact ⟨[], .done (by simpa using hnil)⟩
  | case2 s hne ih =>
    obtain ⟨states, hdrains⟩ := ih
    exact ⟨s :: states, .step (by simpa using hne) hdrains⟩

theorem Drains.eq_run (h : r.Drains s states s') : s' = r.run s ∧ s'.stack = [] := by
  induction h with
  | done hstack => exact ⟨(run_of_nil hstack).symm, hstack⟩
  | step hstack _ ih => exact ⟨ih.1.trans (run_step hstack).symm, ih.2⟩

theorem afterRoots_concat (r : Resolver) (roots : List Requirement) (root : Requirement) :
    r.afterRoots (roots ++ [root]) =
      r.run { r.afterRoots roots with
        stack := .enter (Task.root root) :: (r.afterRoots roots).stack } := by
  rw [afterRoots, List.foldl_append]
  rfl

theorem works_afterRoots (r : Resolver) (roots : List Requirement) :
    ∃ states, r.Works roots states (r.afterRoots roots) := by
  induction roots using List.reverseRecOn with
  | nil => exact ⟨[], .start⟩
  | append_singleton roots root ih =>
    obtain ⟨states, hworks⟩ := ih
    rw [afterRoots_concat]
    obtain ⟨states', hdrains⟩ := r.drains_run
      { r.afterRoots roots with
        stack := .enter (Task.root root) :: (r.afterRoots roots).stack }
    exact ⟨states ++ states', .root root hworks hdrains⟩

theorem Works.eq_afterRoots (h : r.Works roots states s) :
    s = r.afterRoots roots ∧ s.stack = [] := by
  induction h with
  | start => exact ⟨rfl, rfl⟩
  | root root _ hdrains ih =>
    obtain ⟨heq, hstack⟩ := hdrains.eq_run
    refine ⟨?_, hstack⟩
    rw [heq, ih.1, afterRoots_concat]

end Resolver

/-! ### What a step costs -/

theorem Task.length_extraChildren (t : Task) (spec : PackageSpec) :
    (t.extraChildren spec).length = spec.offeredCount t.extras := by
  rw [extraChildren, List.length_flatMap, PackageSpec.offeredCount]
  congr 1
  refine List.map_congr_left fun group _ => ?_
  cases spec.extra group with
  | none => rfl
  | some deps => simp [children, SortedMap.size]

theorem pendingTasks_descend (s : Session) (name : PackageName) (tasks : List Task) :
    pendingTasks (s.descend name tasks).stack = tasks ++ pendingTasks s.stack := by
  have htasks : (tasks.map Frame.enter).filterMap Frame.task? = tasks := by
    rw [List.filterMap_map]
    exact List.filterMap_some
  rw [Session.descend, pendingTasks, List.filterMap_append, htasks]
  rfl

theorem pendingTasks_enter (t : Task) (rest : List Frame) :
    pendingTasks (.enter t :: rest) = t :: pendingTasks rest := rfl

theorem pendingTasks_leave (name : PackageName) (rest : List Frame) :
    pendingTasks (.leave name :: rest) = pendingTasks rest := rfl

theorem requiredCount_insert {name : String} (hnew : resolved.get? name = none)
    (spec : PackageSpec) :
    requiredCount (resolved.insert name spec) =
      requiredCount resolved + spec.dependencies.size := by
  simp [requiredCount, InsertionMap.entries_insert_of_new hnew]

theorem offeredBy_of_get? {name : String} {spec : PackageSpec}
    (h : resolved.get? name = some spec) (groups : SortedSet String) :
    offeredBy resolved name groups = spec.offeredCount groups := by
  simp [offeredBy, h]

theorem offeredBy_of_isEmpty {groups : SortedSet String} (h : groups.isEmpty = true)
    (resolved : InsertionMap String PackageSpec) (name : String) :
    offeredBy resolved name groups = 0 := by
  have hnone : groups.toList = [] := SortedSet.toList_eq_nil_of_isEmpty h
  cases hresolved : resolved.get? name with
  | none => simp [offeredBy, hresolved]
  | some spec => simp [offeredBy, hresolved, PackageSpec.offeredCount, hnone]

/-- More choices offer no less. -/
theorem offeredBy_mono
    (hkept : ∀ name spec, resolved.get? name = some spec → resolved'.get? name = some spec)
    (name : String) (groups : SortedSet String) :
    offeredBy resolved name groups ≤ offeredBy resolved' name groups := by
  cases h : resolved.get? name with
  | none => simp [offeredBy, h]
  | some spec => rw [offeredBy_of_get? h, offeredBy_of_get? (hkept _ _ h)]

/-- A step puts no more tasks on the stack than the required dependencies of what it chooses
and the dependencies in the groups that the task asks for. -/
theorem Resolver.Enters.cost (h : r.Enters s t s') :
    (pendingTasks s'.stack).length + requiredCount s.resolved ≤
      (pendingTasks s.stack).length + requiredCount s'.resolved +
        offeredBy s'.resolved t.name.text t.extras := by
  cases h with
  | cycle => exact Nat.le_add_right _ _
  | disagree => exact Nat.le_add_right _ _
  | fail => exact Nat.le_add_right _ _
  | reuse =>
    rw [Session.stack_recordEdge, Session.resolved_recordEdge]
    exact Nat.le_add_right _ _
  | @reopen existing _ hresolved =>
    rw [pendingTasks_descend, Session.stack_recordEdge, Session.resolved_descend,
      Session.resolved_recordEdge, offeredBy_of_get? hresolved, List.length_append,
      Task.length_extraChildren]
    omega
  | @accept spec _ hnew =>
    have hresolved : (s.resolved.insert t.name.text spec).get? t.name.text = some spec := by
      simp [InsertionMap.get?_insert]
    have hrequired : (Task.children t.name .required spec.dependencies).length =
        spec.dependencies.size := by
      simp [Task.children, SortedMap.size]
    have hrequiredCount := requiredCount_insert hnew spec
    rw [pendingTasks_descend, Session.stack_recordEdge, Session.resolved_descend,
      Session.resolved_recordEdge]
    simp only [Session.chosen, Session.tasksOf, List.length_append, hrequired,
      Task.length_extraChildren, hrequiredCount, offeredBy_of_get? hresolved]
    omega

/-- Entering a task puts no task with groups on the stack. -/
theorem Resolver.Enters.extrasPending_eq (h : r.Enters s t s') :
    extrasPending s'.stack = extrasPending s.stack := by
  cases h with
  | cycle => rfl
  | disagree => rfl
  | fail => rfl
  | reuse => rw [Session.stack_recordEdge]
  | reopen =>
    rw [extrasPending_descend fun u hu => Task.extras_of_mem_extraChildren hu,
      Session.stack_recordEdge]
  | accept =>
    rw [extrasPending_descend fun u hu => (Session.of_mem_tasksOf hu).2,
      Session.stack_recordEdge]
    rfl

/-- The packages that a step chooses a version for are those that it adds. -/
theorem Resolver.keys_step (r : Resolver) (hstack : s.stack ≠ []) :
    (r.step s).resolved.keys = s.resolved.keys ++ (r.chooses? s).toList := by
  rcases step_cases (r := r) hstack with ⟨t, rest, heq, hstep⟩ | ⟨name, rest, heq, hstep⟩
  · have hnext : s.next? = some t := by simp [Session.next?, heq, Frame.task?]
    have henters := r.enters { s with stack := rest } t
    rw [hstep]
    generalize r.enter { s with stack := rest } t = s' at henters ⊢
    simp only [chooses?, hnext, Option.bind_some]
    cases henters with
    | cycle hpath =>
      simp [show t.name ∈ s.path from hpath, Session.closeCycle, Session.report]
    | disagree _ hresolved =>
      simp [show s.resolved.get? t.name.text = _ from hresolved, Session.report]
    | reuse _ hresolved =>
      simp [show s.resolved.get? t.name.text = _ from hresolved]
    | reopen _ hresolved =>
      simp [show s.resolved.get? t.name.text = _ from hresolved]
    | fail _ _ hchoose =>
      simp [hchoose, Except.toOption, Session.report]
    | @accept spec hpath hresolved hchoose =>
      have hnew : s.resolved.get? t.name.text = none := hresolved
      rw [if_pos ⟨hpath, hnew⟩, hchoose, Session.resolved_descend, Session.resolved_recordEdge]
      simp [Session.chosen, InsertionMap.keys, InsertionMap.entries_insert_of_new hnew,
        Except.toOption]
  · have hnext : s.next? = none := by simp [Session.next?, heq, Frame.task?]
    simp [hstep, chooses?, hnext]

/-! ### What a run costs -/

theorem Resolver.Drains.grows (h : r.Drains s states s') : s.Grows s' :=
  h.eq_run.1 ▸ r.grows_run s

theorem Resolver.Drains.keys_eq (h : r.Drains s states s') :
    s'.resolved.keys = s.resolved.keys ++ states.filterMap r.chooses? := by
  induction h with
  | done => simp
  | @step s s' states hstack _ ih =>
    rw [ih, r.keys_step hstack, List.append_assoc]
    cases h : r.chooses? s with
    | none => simp [h]
    | some name => simp [h]

/-- While no task asks for groups, the tasks entered are those on the stack and the required
dependencies of what is chosen. -/
theorem Resolver.Drains.cost (h : r.Drains s states s') (hextras : extrasPending s.stack = 0) :
    (states.filterMap Session.next?).length + requiredCount s.resolved ≤
      (pendingTasks s.stack).length + requiredCount s'.resolved := by
  induction h with
  | done => simp
  | @step s s' states hstack _ ih =>
    rcases step_cases (r := r) hstack with ⟨t, rest, heq, hstep⟩ | ⟨name, rest, heq, hstep⟩
    · have hnext : s.next? = some t := by simp [Session.next?, heq, Frame.task?]
      have henters := r.enters { s with stack := rest } t
      obtain ⟨hnone, hrest⟩ : t.extras.isEmpty = true ∧ extrasPending rest = 0 := by
        simpa [extrasPending, heq, Frame.hasExtras] using hextras
      have hcost := henters.cost
      rw [offeredBy_of_isEmpty hnone] at hcost
      rw [hstep, henters.extrasPending_eq] at ih
      have hrun := ih hrest
      rw [List.filterMap_cons_some hnext, heq, pendingTasks_enter, List.length_cons,
        List.length_cons]
      dsimp only at hcost
      omega
    · have hnext : s.next? = none := by simp [Session.next?, heq, Frame.task?]
      have hrest : extrasPending rest = 0 := by
        simpa [extrasPending, heq, Frame.hasExtras] using hextras
      rw [hstep] at ih
      rw [List.filterMap_cons_none hnext, heq, pendingTasks_leave]
      exact ih hrest

/-- A root costs itself, the required dependencies of what is chosen for it and the
dependencies in its groups. -/
theorem Resolver.Drains.cost_root {root : Requirement} (hempty : s.stack = [])
    (h : r.Drains { s with stack := .enter (Task.root root) :: s.stack } states s') :
    (states.filterMap Session.next?).length + requiredCount s.resolved ≤
      1 + requiredCount s'.resolved + offeredBy s'.resolved (normalize root.name) root.extras := by
  cases h with
  | done hstack => cases hstack
  | @step _ _ states _ hrest =>
    have hstep : r.step { s with stack := .enter (Task.root root) :: s.stack } =
        r.enter s (Task.root root) := rfl
    have hfirst : Session.next? { s with stack := .enter (Task.root root) :: s.stack } =
        some (Task.root root) := rfl
    have hnothing : (pendingTasks s.stack).length = 0 := by simp [hempty, pendingTasks]
    have henters : r.Enters s (Task.root root) (r.enter s (Task.root root)) := r.enters s _
    have hextras : extrasPending (r.enter s (Task.root root)).stack = 0 := by
      rw [henters.extrasPending_eq, hempty]
      rfl
    rw [hstep] at hrest
    have hcost : (pendingTasks (r.enter s (Task.root root)).stack).length +
        requiredCount s.resolved ≤
      (pendingTasks s.stack).length + requiredCount (r.enter s (Task.root root)).resolved +
        offeredBy (r.enter s (Task.root root)).resolved (normalize root.name) root.extras :=
      henters.cost
    have hrun := hrest.cost hextras
    have hoffered := offeredBy_mono hrest.grows.resolved (normalize root.name) root.extras
    rw [List.filterMap_cons_some hfirst, List.length_cons]
    omega

/-! ### What a resolution costs -/

theorem Resolver.Works.keys_eq (h : r.Works roots states s) :
    states.filterMap r.chooses? = s.resolved.keys := by
  induction h with
  | start => rfl
  | root root _ hdrains ih => rw [List.filterMap_append, ih, hdrains.keys_eq]

theorem Resolver.Works.cost (h : r.Works roots states s) :
    (states.filterMap Session.next?).length ≤
      roots.length + requiredCount s.resolved +
        (roots.map fun root => offeredBy s.resolved (normalize root.name) root.extras).sum := by
  induction h with
  | start => simp
  | @root roots states states' s s' root hworks hdrains ih =>
    have hnew := hdrains.cost_root hworks.eq_afterRoots.2
    have hold : (roots.map fun q => offeredBy s.resolved (normalize q.name) q.extras).sum ≤
        (roots.map fun q => offeredBy s'.resolved (normalize q.name) q.extras).sum :=
      List.sum_le_sum fun q _ => offeredBy_mono hdrains.grows.resolved _ _
    simp only [List.filterMap_append, List.length_append, List.map_append, List.sum_append,
      List.map_cons, List.map_nil, List.sum_cons, List.sum_nil, List.length_cons,
      List.length_nil]
    omega

/-- Whatever the registry holds, the loop comes to an end for one root after another, with
nothing left to do, and the answer is what it ends with. On the way every chosen package is
chosen once, in the order of the answer, and the tasks entered are no more than the roots, the
required dependencies of the chosen packages and, for every root, the dependencies in its
groups that the spec chosen for it declares. -/
theorem work_bounded (r : Resolver) (roots : List Requirement) :
    (∃ states s, r.Works roots states s) ∧
    ∀ states s, r.Works roots states s →
      s.stack = [] ∧ s.finish = r.resolve roots ∧
      states.filterMap r.chooses? = (r.resolve roots).resolved.keys ∧
      (states.filterMap r.chooses?).Nodup ∧
      (states.filterMap Session.next?).length ≤
        roots.length + requiredCount (r.resolve roots).resolved +
          (roots.map fun root =>
            offeredBy (r.resolve roots).resolved (normalize root.name) root.extras).sum := by
  constructor
  · obtain ⟨states, hworks⟩ := r.works_afterRoots roots
    exact ⟨states, _, hworks⟩
  · intro states s hworks
    obtain ⟨rfl, hstack⟩ := hworks.eq_afterRoots
    rw [r.resolved_resolve, r.resolve_eq_finish]
    refine ⟨hstack, rfl, hworks.keys_eq, ?_, hworks.cost⟩
    rw [hworks.keys_eq]
    exact (r.afterRoots roots).resolved.distinct

end Depsolve
