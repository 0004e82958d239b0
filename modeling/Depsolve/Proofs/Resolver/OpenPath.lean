import Depsolve.Proofs.Resolver.Coherent
import Depsolve.Proofs.Selection

/-!
The packages in progress are the path that the stack spells.

* `openOn` reads the packages that are to be left off a stack, from its bottom.
* `Nested.path_eq`: they are the packages in progress, in the same order.
* `Nested.mark_below`: under a task, below nothing but other tasks, stands the mark of the package
  that asks for it.
* `path_spelled_by_stack` adds what `Coherent` knows of the path, for every state of every
  resolution, and that a run leaves nothing in progress.
-/

namespace Depsolve

/-- The package that a frame leaves. -/
def Frame.left? : Frame → Option PackageName
  | enter _ => none
  | leave name => some name

/-- The packages that are to be left on a stack, the one at the bottom first. -/
def openOn (stack : List Frame) : List PackageName := (stack.filterMap Frame.left?).reverse

namespace Nested

variable {t : Task} {name parent : PackageName} {stack above below : List Frame}
  {path : List PackageName}

/-- The marks on the stack spell the path. -/
theorem path_eq (h : Nested stack path) : path = openOn stack := by
  induction h with
  | empty => rfl
  | root => rfl
  | @leave name stack path _ _ ih =>
    rw [ih, openOn, openOn, List.filterMap_cons_some (by rfl), List.reverse_cons]
  | @child t parent stack path _ _ _ ih =>
    rw [ih, openOn, openOn, List.filterMap_cons_none (by rfl)]

/-- The mark of the package at the end of the path has nothing but tasks above it. -/
theorem mark_under_tasks (h : Nested stack (path ++ [name])) :
    ∃ (tasks : List Task) (rest : List Frame),
      stack = tasks.map .enter ++ .leave name :: rest := by
  generalize hpath : path ++ [name] = whole at h
  induction h with
  | empty => simp at hpath
  | root => simp at hpath
  | @leave last stack before _ _ _ =>
    obtain ⟨-, hlast⟩ := List.append_inj' hpath rfl
    cases hlast
    exact ⟨[], stack, rfl⟩
  | @child t parent stack before _ _ _ ih =>
    obtain ⟨tasks, rest, rfl⟩ := ih hpath
    exact ⟨t :: tasks, rest, rfl⟩

/-- Between a task and the mark of the package that asks for it there are only tasks. -/
theorem mark_below (h : Nested stack path) (hstack : stack = above ++ .enter t :: below)
    (hparent : t.parent = some parent) :
    ∃ (tasks : List Task) (rest : List Frame),
      below = tasks.map .enter ++ .leave parent :: rest := by
  induction h generalizing above with
  | empty => simp at hstack
  | root hnone =>
    cases above with
    | nil =>
      cases hstack
      rw [hnone] at hparent
      cases hparent
    | cons frame above => simp at hstack
  | leave _ _ ih =>
    cases above with
    | nil => cases hstack
    | cons frame above => exact ih (List.cons.inj hstack).2
  | child hnested hsome _ ih =>
    cases above with
    | nil =>
      cases hstack
      rw [hsome] at hparent
      cases hparent
      exact hnested.mark_under_tasks
    | cons frame above => exact ih (List.cons.inj hstack).2

end Nested

/-- A root is entered with nothing in progress, and any other task with the package that asks for
it in progress last. -/
theorem Task.At.parent_eq {t : Task} {path : List PackageName} (h : t.At path) :
    t.parent = path.getLast? := by
  rcases h with ⟨hnone, rfl⟩ | ⟨before, parent, hsome, rfl, -⟩
  · rw [hnone, List.getLast?_nil]
  · rw [hsome, List.getLast?_concat]

namespace Resolver

variable {r : Resolver} {roots : List Requirement} {s : Session}

/-- A run leaves nothing to do and nothing in progress. -/
theorem Reached.run_leaves_nothing (h : r.Reached roots s) :
    (r.run s).stack = [] ∧ (r.run s).path = [] := by
  obtain ⟨hreached, hstack⟩ := reached_run h
  have hnested : Nested [] (r.run s).path := hstack ▸ hreached.coherent.nested
  exact ⟨hstack, hnested.path_of_nil⟩

/-- In every state of every resolution the packages in progress are those that are to be left on
the stack, in order from the bottom. They are distinct, they are chosen, and each depends on the
next one in the graph. A task that a package asks for stands above the mark of that package, with
only tasks in between, and when a task is next to be entered the package that asks for it is the
last one in progress, or none is in progress if it is a root. A run ends with an empty stack and
nothing in progress. -/
theorem path_spelled_by_stack (h : r.Reached roots s) :
    s.path = openOn s.stack ∧
    s.path.Nodup ∧
    (∀ n ∈ s.path, ∃ spec, s.resolved.get? n.text = some spec) ∧
    s.path.IsChain (fun a b => s.graph.Edge a.text b.text) ∧
    (∀ above t below parent, s.stack = above ++ .enter t :: below → t.parent = some parent →
      ∃ (tasks : List Task) (rest : List Frame),
        below = tasks.map .enter ++ .leave parent :: rest) ∧
    (∀ t rest, s.stack = .enter t :: rest → t.parent = s.path.getLast?) ∧
    (r.run s).stack = [] ∧ (r.run s).path = [] := by
  have hcoherent := h.coherent
  refine ⟨hcoherent.nested.path_eq, hcoherent.nested.path_nodup,
    fun n hn => InsertionMap.mem_keys_iff.mp (hcoherent.path_resolved n hn),
    hcoherent.path_linked, fun above t below parent => hcoherent.nested.mark_below,
    fun t rest hstack => ?_, h.run_leaves_nothing⟩
  exact (hcoherent.entering hstack).position.parent_eq

/-- A program that needs a library, and a log that both of them need. -/
def logged : Resolver := (Resolver.new Context.default).after
  [.add (((PackageSpec.new "program" (.release 1 0 0)).withDependency "library"
      Constraint.any).withDependency "log" Constraint.any),
    .add ((PackageSpec.new "library" (.release 2 0 0)).withDependency "log" Constraint.any),
    .add (PackageSpec.new "log" (.release 3 0 0))]

/-- The program, at any version. -/
def program : Requirement := Requirement.new "program" Constraint.any

/-- Program and library are in progress, and both still ask for the log. -/
def logging : Session :=
  logged.step (logged.step { Session.start with stack := [.enter (Task.root program)] })

theorem reached_logging : logged.Reached [program] logging := by
  have hroot : logged.Reached [program]
      { Session.start with stack := [.enter (Task.root program)] } := .root program .start rfl
  have hopen : (logged.step { Session.start with
      stack := [.enter (Task.root program)] }).stack.length = 3 := by cbv
  refine .step (.step hroot (List.cons_ne_nil _ _)) fun hnil => ?_
  rw [hnil] at hopen
  cases hopen

/-- The task on top is the library's, and its mark and that of the program below it spell the
path. -/
theorem path_spelled_by_stack_logging :
    logged.Reached [program] logging ∧
    logging.stack.map (fun f => f.left?.map (·.text)) =
      [none, some "library", none, some "program"] ∧
    logging.path.map (·.text) = ["program", "library"] ∧
    logging.graph.Edge "program" "library" ∧
    (∃ t rest, logging.stack = .enter t :: rest ∧ t.parent.map (·.text) = some "library") ∧
    (logged.run logging).path = [] := by
  have hmarks : logging.stack.map (fun f => f.left?.map (·.text)) =
      [none, some "library", none, some "program"] := by cbv
  have hnames : logging.path.map (·.text) = ["program", "library"] := by cbv
  obtain ⟨-, -, -, hlinked, -, htop, -, hleft⟩ := path_spelled_by_stack reached_logging
  refine ⟨reached_logging, hmarks, hnames, ?_, ?_, hleft⟩
  · have hchain : (logging.path.map (·.text)).IsChain logging.graph.Edge :=
      (List.isChain_map _).mpr hlinked
    rw [hnames] at hchain
    exact (List.isChain_cons_cons.mp hchain).1
  · cases hstack : logging.stack with
    | nil => simp [hstack] at hmarks
    | cons frame rest =>
      cases frame with
      | leave name => simp [hstack, Frame.left?] at hmarks
      | enter t =>
        refine ⟨t, rest, rfl, ?_⟩
        rw [htop t rest hstack, ← List.getLast?_map, hnames]
        rfl

end Resolver

end Depsolve
