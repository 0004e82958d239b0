import Depsolve.Proofs.Resolver.Cycles

/-!
Nothing is chosen that was not asked for, and what is chosen is what the selection gives for
the request.

* `Task.StemsFrom` lists where a request can come from: a root, what an earlier choice requires,
  and a group of an earlier choice that a root asks for.
* `Resolver.ChoosesFor` says that a resolution made a choice when it entered a task, with the
  earlier choices made by then.
* `Traced` is the invariant: each task that waits stems from the choices so far, and each choice
  from those in front of it.
* `every_choice_requested` reads the entries of the answer off the invariant. No other groups
  than those that roots ask for bring a package in.
-/

namespace Depsolve

variable {r : Resolver} {roots more : List Requirement} {s s' : Session} {t u : Task}
  {earlier later before : List (String × PackageSpec)} {name : String} {spec : PackageSpec}

/-! ### Where requests come from -/

/-- Where a task comes from, among some roots and the choices made before it. -/
inductive Task.StemsFrom (roots : List Requirement) (earlier : List (String × PackageSpec))
    (t : Task) : Prop where
  /-- It is the task of a root. -/
  | root {root : Requirement} (hroot : root ∈ roots) (htask : t = Task.root root)
  /-- An earlier choice requires it. -/
  | required {parent : PackageName} {spec : PackageSpec} (hparent : t.parent = some parent)
      (hkind : t.kind = .required) (hearlier : (parent.text, spec) ∈ earlier)
      (hdep : (t.name, t.constraint) ∈ spec.dependencies.entries)
  /-- An earlier choice has it in a group that a root of that package asks for. -/
  | extra {parent : PackageName} {spec : PackageSpec} {root : Requirement} {group : String}
      {deps : Dependencies} (hparent : t.parent = some parent) (hkind : t.kind = .extra group)
      (hearlier : (parent.text, spec) ∈ earlier) (hroot : root ∈ roots)
      (hname : PackageName.of root.name = parent) (hgroup : group ∈ root.extras.toList)
      (hdeclared : spec.extra group = some deps) (hdep : (t.name, t.constraint) ∈ deps.entries)

namespace Task.StemsFrom

theorem mono (h : t.StemsFrom roots earlier) (hroots : ∀ q ∈ roots, q ∈ more)
    (hearlier : ∀ e ∈ earlier, e ∈ later) : t.StemsFrom more later := by
  cases h with
  | root hroot htask => exact .root (hroots _ hroot) htask
  | required hparent hkind hmem hdep => exact .required hparent hkind (hearlier _ hmem) hdep
  | extra hparent hkind hmem hroot hname hgroup hdeclared hdep =>
    exact .extra hparent hkind (hearlier _ hmem) (hroots _ hroot) hname hgroup hdeclared hdep

/-- Only a root asks for groups. -/
theorem eq_root_of_mem_extras (h : t.StemsFrom roots earlier) {path : List PackageName}
    (hposition : t.At path) {group : String} (hgroup : group ∈ t.extras.toList) :
    ∃ root ∈ roots, t = Task.root root := by
  have hnone : t.parent = none := by
    rcases hposition with ⟨hnone, _⟩ | ⟨_, _, _, _, hextras⟩
    · exact hnone
    · rw [hextras] at hgroup
      cases hgroup
  cases h with
  | root hroot htask => exact ⟨_, hroot, htask⟩
  | required hparent =>
    rw [hnone] at hparent
    cases hparent
  | extra hparent =>
    rw [hnone] at hparent
    cases hparent

/-- The tasks of a chosen package stem from its choice. -/
theorem tasksOf (h : t.StemsFrom roots earlier) {path : List PackageName} (hposition : t.At path)
    (hchosen : (t.name.text, spec) ∈ earlier) (hu : u ∈ Session.tasksOf t spec) :
    u.StemsFrom roots earlier := by
  rcases List.mem_append.mp hu with hrequired | hoptional
  · obtain ⟨dep, hdep, rfl⟩ := Task.mem_children.mp hrequired
    exact .required rfl rfl hchosen hdep
  · obtain ⟨group, hgroup, deps, hdeclared, hmem⟩ := Task.mem_extraChildren.mp hoptional
    obtain ⟨dep, hdep, rfl⟩ := Task.mem_children.mp hmem
    obtain ⟨root, hroot, rfl⟩ := h.eq_root_of_mem_extras hposition hgroup
    exact .extra rfl rfl hchosen hroot rfl hgroup hdeclared hdep

/-- A group is a reason only where a root asks for it. -/
theorem exists_root_of_kind (h : t.StemsFrom roots earlier) {group : String}
    (hkind : t.kind = .extra group) :
    ∃ root ∈ roots, t.parent = some (PackageName.of root.name) ∧ group ∈ root.extras.toList := by
  cases h with
  | root _ htask =>
    rw [htask] at hkind
    cases hkind
  | required _ hrequired =>
    rw [hrequired] at hkind
    cases hkind
  | extra hparent hextra _ hroot hname hgroup =>
    rw [hextra] at hkind
    cases hkind
    exact ⟨_, hroot, hname ▸ hparent, hgroup⟩

end Task.StemsFrom

/-! ### Choices -/

/-- A resolution of the roots enters a task when the packages in front are chosen, and this step
chooses a spec for the package of the task. -/
def Resolver.ChoosesFor (r : Resolver) (roots : List Requirement)
    (before : List (String × PackageSpec)) (t : Task) (spec : PackageSpec) : Prop :=
  ∃ visited s rest, visited <+: roots ∧ r.Reached visited s ∧ s.stack = .enter t :: rest ∧
    s.resolved.entries = before ∧ (r.step s).resolved.entries = before ++ [(t.name.text, spec)]

/-- A choice goes back to a task that asked for the package, and it is what the selection gives
for the constraint of the task. -/
def Resolver.Justifies (r : Resolver) (roots : List Requirement)
    (before : List (String × PackageSpec)) (name : String) (spec : PackageSpec) : Prop :=
  ∃ t, t.name.text = name ∧ r.ChoosesFor roots before t spec ∧
    r.choose t.name t.constraint = .ok spec ∧ t.StemsFrom roots before

theorem Resolver.Justifies.pushRoot (h : r.Justifies roots before name spec) (root : Requirement) :
    r.Justifies (roots ++ [root]) before name spec := by
  obtain ⟨t, hname, ⟨visited, s, rest, hprefix, hstep⟩, hchoose, hstems⟩ := h
  exact ⟨t, hname, ⟨visited, s, rest, hprefix.trans (List.prefix_append _ _), hstep⟩, hchoose,
    hstems.mono (fun _ => List.mem_append_left _) fun _ => id⟩

/-- Entering a task chooses nothing, or a spec for the package of the task as the last one. -/
theorem Resolver.Enters.entries_cases (h : r.Enters s t s') :
    s'.resolved.entries = s.resolved.entries ∨
      ∃ spec, r.choose t.name t.constraint = .ok spec ∧
        s'.resolved.entries = s.resolved.entries ++ [(t.name.text, spec)] := by
  cases h with
  | cycle => exact .inl rfl
  | disagree => exact .inl rfl
  | fail => exact .inl rfl
  | reuse => exact .inl (by rw [Session.resolved_recordEdge])
  | reopen => exact .inl (by rw [Session.resolved_descend, Session.resolved_recordEdge])
  | @accept spec _ hnew hchoose =>
    refine .inr ⟨spec, hchoose, ?_⟩
    rw [Session.resolved_descend, Session.resolved_recordEdge]
    exact InsertionMap.entries_insert_of_new hnew spec

theorem Resolver.step_of_enter {rest : List Frame} (hstack : s.stack = .enter t :: rest) :
    r.step s = r.enter { s with stack := rest } t := by
  rw [step, hstack]

/-! ### The invariant -/

/-- Every task that waits stems from the choices so far, every choice from those in front. -/
structure Traced (r : Resolver) (roots : List Requirement) (s : Session) : Prop where
  tasks : ∀ t, .enter t ∈ s.stack → t.StemsFrom roots s.resolved.entries
  choices : ∀ before name spec after, s.resolved.entries = before ++ (name, spec) :: after →
    r.Justifies roots before name spec

theorem traced_start (r : Resolver) : Traced r [] Session.start where
  tasks _ h := absurd h List.not_mem_nil
  choices before _ _ _ h := by cases before <;> cases h

theorem Traced.pushRoot (h : Traced r roots s) (root : Requirement) :
    Traced r (roots ++ [root]) { s with stack := .enter (Task.root root) :: s.stack } where
  tasks t ht := by
    rcases List.mem_cons.mp ht with heq | hold
    · cases heq
      exact .root (List.mem_append_right _ (List.mem_singleton_self root)) rfl
    · exact (h.tasks t hold).mono (fun _ => List.mem_append_left _) fun _ => id
  choices before name spec after hsplit := (h.choices before name spec after hsplit).pushRoot root

theorem Traced.leave (h : Traced r roots s) {name : PackageName} {rest : List Frame}
    (hstack : s.stack = .leave name :: rest) :
    Traced r roots { s with stack := rest, path := s.path.erase name } where
  tasks t ht := h.tasks t (by rw [hstack]; exact List.mem_cons_of_mem _ ht)
  choices := h.choices

theorem Traced.enter (h : Traced r roots s) (hreached : r.Reached roots s) {rest : List Frame}
    (hstack : s.stack = .enter t :: rest) :
    Traced r roots (r.enter { s with stack := rest } t) := by
  have hstems : t.StemsFrom roots s.resolved.entries := h.tasks t (by simp [hstack])
  have hposition := (hreached.coherent.entering hstack).position
  have hstep : r.step s = r.enter { s with stack := rest } t := r.step_of_enter hstack
  have henters := r.enters { s with stack := rest } t
  generalize r.enter { s with stack := rest } t = s' at hstep henters ⊢
  have hkept : ∀ e ∈ s.resolved.entries, e ∈ s'.resolved.entries := by
    intro e he
    rcases henters.entries_cases with hsame | ⟨_, _, hnew⟩
    · exact hsame ▸ he
    · exact hnew ▸ List.mem_append_left _ he
  constructor
  · intro u hu
    rcases henters.stack_cases hu with hold | ⟨spec, hspec, _, hmem⟩
    · have hwaits : .enter u ∈ s.stack := by
        rw [hstack]
        exact List.mem_cons_of_mem _ hold
      exact (h.tasks u hwaits).mono (fun _ => id) hkept
    · exact (hstems.mono (fun _ => id) hkept).tasksOf hposition
        (InsertionMap.get?_eq_some_iff.mp hspec) hmem
  · intro before name spec after hsplit
    rcases henters.entries_cases with hsame | ⟨chosen, hchoose, hnew⟩
    · exact h.choices before name spec after (hsame.symm.trans hsplit)
    · rw [hnew] at hsplit
      rcases last_or_before_of_snoc hsplit with ⟨rfl, hlast⟩ | ⟨rest, hold⟩
      · -- The last choice is the one that this step makes.
        cases hlast
        exact ⟨t, rfl, ⟨roots, s, _, List.prefix_rfl, hreached, hstack, rfl, hstep ▸ hnew⟩,
          hchoose, hstems⟩
      · exact h.choices before name spec rest hold

/-- In every state of every resolution all tasks and choices go back to requests. -/
theorem Resolver.Reached.traced (h : r.Reached roots s) : Traced r roots s := by
  refine h.invariant (P := Traced r) (traced_start r) ?_ ?_ ?_
  · intro _ _ root _ htraced
    exact htraced.pushRoot root
  · intro _ _ _ _ hreached hstack htraced
    exact htraced.enter hreached hstack
  · intro _ _ _ _ hstack htraced
    exact htraced.leave hstack

/-! ### The answer of a resolution -/

/-- Every entry of an answer is justified by the entries in front of it. -/
theorem Resolver.justifies_of_resolved {after : List (String × PackageSpec)}
    (hentry : (r.resolve roots).resolved.entries = before ++ (name, spec) :: after) :
    r.Justifies roots before name spec := by
  rw [r.resolved_resolve] at hentry
  exact (r.reached_afterRoots roots).1.traced.choices before name spec after hentry

/-- A package of an answer stands under the name of its spec. The spec was handed over by a
call, is registered and fits the environment. It was chosen when the packages in front of it
were, for a task that stems from a root or from one of these packages, and it is what the
selection gives for the constraint of that task. A group is the reason for the task only if a
root asks for it. -/
theorem every_choice_requested (context : Context) (calls : List Registry.Call)
    (roots : List Requirement) {before after : List (String × PackageSpec)} {name : String}
    {spec : PackageSpec}
    (hentry : (((Resolver.new context).after calls).resolve roots).resolved.entries =
      before ++ (name, spec) :: after) :
    spec.name.text = name ∧
    (∃ c ∈ calls, c.spec = spec) ∧
    ((Resolver.new context).after calls).registry.Knows spec.name spec ∧
    spec.fitsRuntime context = true ∧ spec.fitsPlatform context = true ∧
    spec.fitsPrerelease context = true ∧
    ∃ t, t.name = spec.name ∧
      ((Resolver.new context).after calls).ChoosesFor roots before t spec ∧
      ((Resolver.new context).after calls).choose t.name t.constraint = .ok spec ∧
      t.StemsFrom roots before ∧
      ∀ group, t.kind = .extra group → ∃ root ∈ roots,
        t.parent = some (PackageName.of root.name) ∧ group ∈ root.extras.toList := by
  have hindexed := Resolver.indexed_after context calls
  obtain ⟨t, rfl, hchooses, hchoose, hstems⟩ := Resolver.justifies_of_resolved hentry
  obtain ⟨hspec, haccepts⟩ := Selector.mem_compatible.mp (Resolver.mem_compatible_of_choose hchoose)
  have hknows := Resolver.mem_specs_selector.mp hspec
  have hname : spec.name = t.name := hindexed.name_of_knows hknows
  have hcall : ∃ c ∈ calls, c.spec = spec := by
    rw [Resolver.after_eq] at hknows
    exact Registry.exists_call_of_knows hknows
  have hcontext : (((Resolver.new context).after calls).selector t.name).context = context := by
    rw [Resolver.after_eq]
    rfl
  obtain ⟨hruntime, hplatform, hprerelease⟩ := hcontext ▸ Selector.fits_of_accepts haccepts
  exact ⟨congrArg PackageName.text hname, hcall, hname ▸ hknows, hruntime, hplatform, hprerelease,
    t, hname.symm, hchooses, hchoose, hstems, fun group => hstems.exists_root_of_kind⟩

namespace Resolver

/-- A report that is rendered on request. -/
def report : PackageSpec :=
  (PackageSpec.new "report" (Version.release 1 0 0)).withOptionalDependency "pdf" "renderer"
    Constraint.any

/-- The renderer. -/
def renderer : PackageSpec := PackageSpec.new "renderer" (Version.release 2 0 0)

/-- The report with its group. -/
def rendered : Requirement := (Requirement.new "report" Constraint.any).withExtra "pdf"

/-- Both packages are offered. -/
def reports : Resolver := (Resolver.new Context.default).after [.add report, .add renderer]

theorem entries_resolve_rendered : (reports.resolve [rendered]).resolved.entries =
    [("report", report), ("renderer", renderer)] := by cbv

end Resolver

/-- The renderer is chosen after the report, for the group that the root asks for. -/
theorem choice_requested_renderer :
    (Resolver.reports.resolve [Resolver.rendered]).resolved.entries =
      [("report", Resolver.report)] ++ ("renderer", Resolver.renderer) :: [] ∧
    Resolver.reports.registry.Knows Resolver.renderer.name Resolver.renderer ∧
    ∃ t, t.name = Resolver.renderer.name ∧
      Resolver.reports.ChoosesFor [Resolver.rendered] [("report", Resolver.report)] t
        Resolver.renderer ∧
      Resolver.reports.choose t.name t.constraint = .ok Resolver.renderer ∧
      t.StemsFrom [Resolver.rendered] [("report", Resolver.report)] ∧
      ∀ group, t.kind = .extra group → ∃ root ∈ [Resolver.rendered],
        t.parent = some (PackageName.of root.name) ∧ group ∈ root.extras.toList := by
  have hentry : (Resolver.reports.resolve [Resolver.rendered]).resolved.entries =
      [("report", Resolver.report)] ++ ("renderer", Resolver.renderer) :: [] :=
    Resolver.entries_resolve_rendered
  obtain ⟨-, -, hknows, -, -, -, hrequest⟩ :=
    every_choice_requested Context.default [.add Resolver.report, .add Resolver.renderer]
      [Resolver.rendered] hentry
  exact ⟨hentry, hknows, hrequest⟩

end Depsolve
