import Depsolve.Proofs.Resolver.Coherent
import Depsolve.Proofs.Selection

/-!
No request is dropped: whatever a root or a chosen package asks for is satisfied by the
answer or named in one of its conflicts.

* `InForce` are the dependencies that count for a chosen package: the required ones and those
  of the groups that roots ask for.
* `Settled` are the four ways in which a request can come out; none is taken back later.
* `Accounted` is the invariant of the worklist: each request is settled or waits on the stack.
  A root whose groups count can not have failed before its package was chosen for another
  request, since what is chosen passes every filter but the constraint.
* `every_request_accounted` reads the answer off the invariant.
-/

namespace Depsolve

/-! ### Requests -/

/-- A dependency in one of some groups of a spec, as far as the spec declares them. -/
def PackageSpec.Offers (spec : PackageSpec) (groups : SortedSet String)
    (dep : PackageName × Constraint) : Prop :=
  ∃ group ∈ groups.toList, ∃ deps, spec.extra group = some deps ∧ dep ∈ deps.entries

/-- The dependencies in force for a chosen package: what its spec requires, and what it
offers in the groups of a root whose constraint the chosen version satisfies. -/
inductive InForce (roots : List Requirement) (name : String) (spec : PackageSpec)
    (dep : PackageName × Constraint) : Prop where
  | required (hdep : dep ∈ spec.dependencies.entries)
  | extra {root : Requirement} (hroot : root ∈ roots) (hname : normalize root.name = name)
      (hholds : root.constraint.holds spec.version = true)
      (hoffers : spec.Offers root.extras dep)

namespace Task

variable {t u : Task} {spec : PackageSpec} {dep : PackageName × Constraint}

theorem mem_children {parent : PackageName} {kind : DependencyKind} {deps : Dependencies} :
    u ∈ children parent kind deps ↔
      ∃ dep ∈ deps.entries, (⟨dep.1, dep.2, some parent, kind, SortedMap.empty⟩ : Task) = u :=
  List.mem_map

theorem mem_extraChildren :
    u ∈ t.extraChildren spec ↔ ∃ group ∈ t.extras.toList, ∃ deps,
      spec.extra group = some deps ∧ u ∈ children t.name (.extra group) deps := by
  rw [extraChildren, List.mem_flatMap]
  refine exists_congr fun group => and_congr_right fun _ => ?_
  cases spec.extra group with
  | none => simp
  | some deps => simp

theorem extraChildren_of_isEmpty (h : t.extras.isEmpty = true) : t.extraChildren spec = [] := by
  rw [extraChildren, SortedSet.toList_eq_nil_of_isEmpty h, List.flatMap_nil]

/-- Every offered dependency has its task. -/
theorem exists_extraChild (h : spec.Offers t.extras dep) :
    ∃ u ∈ t.extraChildren spec, u.parent = some t.name ∧ u.name = dep.1 ∧ u.constraint = dep.2 := by
  obtain ⟨group, hgroup, deps, hdeclared, hdep⟩ := h
  refine ⟨⟨dep.1, dep.2, some t.name, .extra group, SortedMap.empty⟩, ?_, rfl, rfl, rfl⟩
  exact mem_extraChildren.mpr ⟨group, hgroup, deps, hdeclared, mem_children.mpr ⟨dep, hdep, rfl⟩⟩

/-- The task of a group is there for an offered dependency. -/
theorem offers_of_mem_extraChildren (h : u ∈ t.extraChildren spec) :
    spec.Offers t.extras (u.name, u.constraint) := by
  obtain ⟨group, hgroup, deps, hdeclared, hu⟩ := mem_extraChildren.mp h
  obtain ⟨dep, hdep, rfl⟩ := mem_children.mp hu
  exact ⟨group, hgroup, deps, hdeclared, hdep⟩

theorem exists_requiredChild (h : dep ∈ spec.dependencies.entries) (name : PackageName) :
    ∃ u ∈ children name .required spec.dependencies,
      u.parent = some name ∧ u.name = dep.1 ∧ u.constraint = dep.2 :=
  ⟨_, mem_children.mpr ⟨dep, h, rfl⟩, rfl, rfl, rfl⟩

end Task

/-! ### How a request comes out -/

theorem Conflict.package_cycle (path : List String) (name : String) :
    (Conflict.cycle (path ++ [name])).package = name := by
  simp [Conflict.cycle]

theorem Session.package_failure (s : Session) (context : Context) (t : Task)
    (f : SelectionFailure) : (s.failure context t f).package = t.name.text := by
  cases f <;> rfl

/-- What became of the request for a package under a constraint. -/
inductive Settled (r : Resolver) (s : Session) (parent : Option PackageName) (name : PackageName)
    (constraint : Constraint) : Prop where
  | satisfied {spec : PackageSpec} (hresolved : s.resolved.get? name.text = some spec)
      (hholds : constraint.holds spec.version = true)
      (hedge : ∀ p, parent = some p → s.graph.Edge p.text name.text)
  | circular {c : Conflict} (hparent : parent.isSome) (hc : c ∈ s.conflicts)
      (hkind : c.kind = .circular) (hpackage : c.package = name.text)
  | disagrees {spec : PackageSpec} {c : Conflict}
      (hresolved : s.resolved.get? name.text = some spec)
      (hholds : constraint.holds spec.version = false) (hc : c ∈ s.conflicts)
      (hpackage : c.package = name.text)
  | unavailable {f : SelectionFailure} {c : Conflict} (hchoose : r.choose name constraint = .error f)
      (hc : c ∈ s.conflicts) (hpackage : c.package = name.text)

variable {r : Resolver} {roots : List Requirement} {s s' : Session} {t : Task}
  {name : PackageName} {constraint : Constraint} {spec : PackageSpec}
  {dep : PackageName × Constraint}

/-- The outcome of a request is never taken back. -/
theorem Settled.mono {parent : Option PackageName} (h : Settled r s parent name constraint)
    (hgrows : s.Grows s') : Settled r s' parent name constraint := by
  cases h with
  | satisfied hresolved hholds hedge =>
    exact .satisfied (hgrows.resolved _ _ hresolved) hholds
      fun p hp => hgrows.edges _ _ (hedge p hp)
  | circular hparent hc hkind hpackage =>
    exact .circular hparent (hgrows.conflicts _ hc) hkind hpackage
  | disagrees hresolved hholds hc hpackage =>
    exact .disagrees (hgrows.resolved _ _ hresolved) hholds (hgrows.conflicts _ hc) hpackage
  | unavailable hchoose hc hpackage =>
    exact .unavailable hchoose (hgrows.conflicts _ hc) hpackage

/-- A request is satisfied, or a conflict names its package. -/
theorem Settled.cases {parent : Option PackageName} (h : Settled r s parent name constraint) :
    (∃ spec, s.resolved.get? name.text = some spec ∧ constraint.holds spec.version = true ∧
      ∀ p, parent = some p → s.graph.Edge p.text name.text) ∨
      ∃ c ∈ s.conflicts, c.package = name.text := by
  cases h with
  | satisfied hresolved hholds hedge => exact .inl ⟨_, hresolved, hholds, hedge⟩
  | circular _ hc _ hpackage => exact .inr ⟨_, hc, hpackage⟩
  | disagrees _ _ hc hpackage => exact .inr ⟨_, hc, hpackage⟩
  | unavailable _ hc hpackage => exact .inr ⟨_, hc, hpackage⟩

/-- Where there is no conflict, a settled request is satisfied. -/
theorem Settled.satisfied_of_clean {parent : Option PackageName}
    (h : Settled r s parent name constraint) (hclean : s.conflicts = []) :
    ∃ spec, s.resolved.get? name.text = some spec ∧ constraint.holds spec.version = true ∧
      ∀ p, parent = some p → s.graph.Edge p.text name.text := by
  refine h.cases.resolve_right ?_
  rintro ⟨c, hc, -⟩
  rw [hclean] at hc
  cases hc

/-- Recording the dependency on a chosen package settles the request for it. -/
theorem Session.Records.settled (h : s.Records t s')
    (hresolved : s.resolved.get? t.name.text = some spec)
    (hholds : t.constraint.holds spec.version = true) :
    Settled r s' t.parent t.name t.constraint := by
  cases h with
  | root hparent =>
    refine .satisfied hresolved hholds fun p hp => ?_
    rw [hparent] at hp
    cases hp
  | cycle hparent _ =>
    exact .circular (by simp [hparent]) (List.mem_append_right _ (List.mem_singleton_self _)) rfl
      (Conflict.package_cycle _ _)
  | link hparent hdependent hdependency _ =>
    refine .satisfied hresolved hholds fun p hp => ?_
    rw [hparent] at hp
    cases hp
    exact (DependencyGraph.edge_link hdependent hdependency).mpr (.inr ⟨rfl, rfl⟩)

/-- Entering a task settles its request. -/
theorem Session.Entering.settled (h : s.Entering t) (henters : r.Enters s t s') :
    Settled r s' t.parent t.name t.constraint := by
  have hreported : ∀ c : Conflict, c ∈ (s.report c).conflicts := fun c =>
    List.mem_append_right _ (List.mem_singleton_self c)
  cases henters with
  | cycle hpath =>
    have hparent : t.parent.isSome := by
      rcases h.position with ⟨_, hempty⟩ | ⟨_, _, hparent, _⟩
      · rw [hempty] at hpath
        cases hpath
      · simp [hparent]
    exact .circular hparent (hreported _) rfl (Conflict.package_cycle _ _)
  | disagree _ hresolved hholds => exact .disagrees hresolved hholds (hreported _) rfl
  | reuse _ hresolved hholds _ => exact (h.records hresolved).settled hresolved hholds
  | reopen _ hresolved hholds _ =>
    exact ((h.records hresolved).settled hresolved hholds).mono (Session.grows_descend _ _ _)
  | fail _ _ hchoose => exact .unavailable hchoose (hreported _) (s.package_failure _ _ _)
  | @accept spec _ _ hchoose =>
    have hresolved : (s.chosen t spec).resolved.get? t.name.text = some spec := by
      simp [Session.chosen, InsertionMap.get?_insert]
    exact ((h.records_chosen spec).settled hresolved
      (Resolver.holds_of_choose hchoose)).mono (Session.grows_descend _ _ _)

/-! ### What a step leaves on the stack -/

/-- Nothing but the entered task goes off the stack. -/
theorem Resolver.Enters.mem_stack (h : r.Enters s t s') {f : Frame} (hf : f ∈ s.stack) :
    f ∈ s'.stack := by
  cases h with
  | cycle => exact hf
  | disagree => exact hf
  | fail => exact hf
  | reuse => rwa [Session.stack_recordEdge]
  | reopen =>
    refine List.mem_append_right _ (List.mem_cons_of_mem _ ?_)
    rwa [Session.stack_recordEdge]
  | accept =>
    refine List.mem_append_right _ (List.mem_cons_of_mem _ ?_)
    rwa [Session.stack_recordEdge]

/-- A step chooses at most one package, and the tasks of a choice go on the stack. -/
theorem Resolver.Enters.resolved_cases (h : r.Enters s t s') {n : String}
    (hn : s'.resolved.get? n = some spec) :
    s.resolved.get? n = some spec ∨
      (n = t.name.text ∧ s.resolved.get? n = none ∧ r.choose t.name t.constraint = .ok spec ∧
        ∀ u ∈ Session.tasksOf t spec, .enter u ∈ s'.stack) := by
  cases h with
  | cycle => exact .inl hn
  | disagree => exact .inl hn
  | fail => exact .inl hn
  | reuse =>
    rw [Session.resolved_recordEdge] at hn
    exact .inl hn
  | reopen =>
    rw [Session.resolved_descend, Session.resolved_recordEdge] at hn
    exact .inl hn
  | accept _ hnew hchoose =>
    rw [Session.resolved_descend, Session.resolved_recordEdge, Session.chosen,
      InsertionMap.get?_insert] at hn
    by_cases heq : n = t.name.text
    · rw [if_pos heq] at hn
      cases hn
      refine .inr ⟨heq, heq ▸ hnew, hchoose, fun u hu => ?_⟩
      exact List.mem_append_left _ (List.mem_map_of_mem hu)
    · rw [if_neg heq] at hn
      exact .inl hn

/-- A root whose constraint the chosen version satisfies has the tasks of its groups put on
the stack when it is entered. -/
theorem Resolver.Enters.mem_extraChildren (h : r.Enters s t s') (hpath : t.name ∉ s.path)
    (hresolved : s'.resolved.get? t.name.text = some spec)
    (hholds : t.constraint.holds spec.version = true) {u : Task}
    (hu : u ∈ t.extraChildren spec) : .enter u ∈ s'.stack := by
  cases h with
  | cycle hmem => exact absurd hmem hpath
  | disagree _ hold hfails =>
    have hsame : some _ = some spec := hold.symm.trans hresolved
    cases hsame
    rw [hfails] at hholds
    cases hholds
  | reuse _ _ _ hextras =>
    rw [Task.extraChildren_of_isEmpty hextras] at hu
    cases hu
  | reopen _ hold _ _ =>
    rw [Session.resolved_descend, Session.resolved_recordEdge] at hresolved
    have hsame : some _ = some spec := hold.symm.trans hresolved
    cases hsame
    exact List.mem_append_left _ (List.mem_map_of_mem hu)
  | fail _ hnew _ =>
    have hsame : none = some spec := hnew.symm.trans hresolved
    cases hsame
  | accept =>
    rw [Session.resolved_descend, Session.resolved_recordEdge, Session.chosen,
      InsertionMap.get?_insert, if_pos rfl] at hresolved
    cases hresolved
    exact List.mem_append_left _ (List.mem_map_of_mem (List.mem_append_right _ hu))

/-! ### The invariant of the worklist -/

/-- The request of a chosen package is settled or waits on the stack. -/
def Session.Handles (s : Session) (r : Resolver) (parent : PackageName)
    (dep : PackageName × Constraint) : Prop :=
  (∃ u, .enter u ∈ s.stack ∧ u.parent = some parent ∧ u.name = dep.1 ∧ u.constraint = dep.2) ∨
    Settled r s (some parent) dep.1 dep.2

/-- A root was entered, and what it activates is handled. -/
structure Session.Entered (s : Session) (r : Resolver) (root : Requirement) : Prop where
  settled : Settled r s none (PackageName.of root.name) root.constraint
  extras : ∀ spec, s.resolved.get? (normalize root.name) = some spec →
    root.constraint.holds spec.version = true → ∀ dep, spec.Offers root.extras dep →
    s.Handles r (PackageName.of root.name) dep

/-- Every request is settled or waits on the stack. -/
structure Accounted (r : Resolver) (roots : List Requirement) (s : Session) : Prop where
  chosen : ∀ (name : PackageName) spec, s.resolved.get? name.text = some spec →
    ∃ constraint, r.choose name constraint = .ok spec
  required : ∀ (name : PackageName) spec, s.resolved.get? name.text = some spec →
    ∀ dep ∈ spec.dependencies.entries, s.Handles r name dep
  roots : ∀ root ∈ roots, .enter (Task.root root) ∈ s.stack ∨ s.Entered r root

/-- A request stays handled if the tasks that go off the stack are settled. -/
theorem Session.Handles.mono (h : s.Handles r name dep) (hgrows : s.Grows s')
    (hstack : ∀ u, .enter u ∈ s.stack →
      .enter u ∈ s'.stack ∨ Settled r s' u.parent u.name u.constraint) :
    s'.Handles r name dep := by
  rcases h with ⟨u, hu, hparent, hname, hconstraint⟩ | hsettled
  · rcases hstack u hu with hu | hsettled
    · exact .inl ⟨u, hu, hparent, hname, hconstraint⟩
    · rw [hparent, hname, hconstraint] at hsettled
      exact .inr hsettled
  · exact .inr (hsettled.mono hgrows)

/-- A root that is entered now has its groups put on the stack, since nothing is on the path. -/
theorem Session.Entering.entered {root : Requirement} (h : s.Entering (Task.root root))
    (henters : r.Enters s (Task.root root) s') : s'.Entered r root where
  settled := h.settled henters
  extras spec hspec hholds dep hoffers := by
    have hpath : (Task.root root).name ∉ s.path := by
      rcases h.position with ⟨_, hempty⟩ | ⟨_, _, hparent, _⟩
      · rw [hempty]
        exact List.not_mem_nil
      · cases hparent
    obtain ⟨u, hu, hfields⟩ := Task.exists_extraChild (t := Task.root root) hoffers
    exact .inl ⟨u, henters.mem_extraChildren hpath hspec hholds hu, hfields⟩

/-- A root that was entered before its package was chosen found no version to choose. -/
theorem Session.Entered.unavailable {root : Requirement} (h : s.Entered r root)
    (hnew : s.resolved.get? (normalize root.name) = none) :
    ∃ f, r.choose (PackageName.of root.name) root.constraint = .error f := by
  cases h.settled with
  | satisfied hresolved _ _ =>
    have hsame : none = some _ := hnew.symm.trans hresolved
    cases hsame
  | circular hparent _ _ _ => cases hparent
  | disagrees hresolved _ _ _ =>
    have hsame : none = some _ := hnew.symm.trans hresolved
    cases hsame
  | unavailable hchoose _ _ => exact ⟨_, hchoose⟩

/-- An entered root stays handled unless its package is chosen only now. -/
theorem Session.Entered.mono {root : Requirement} (h : s.Entered r root) (hgrows : s.Grows s')
    (hstack : ∀ u, .enter u ∈ s.stack →
      .enter u ∈ s'.stack ∨ Settled r s' u.parent u.name u.constraint)
    (hold : ∀ spec, s'.resolved.get? (normalize root.name) = some spec →
      root.constraint.holds spec.version = true →
      s.resolved.get? (normalize root.name) = some spec) : s'.Entered r root where
  settled := h.settled.mono hgrows
  extras spec hspec hholds dep hoffers :=
    (h.extras spec (hold spec hspec hholds) hholds dep hoffers).mono hgrows hstack

theorem accounted_start (r : Resolver) : Accounted r [] Session.start where
  chosen _ _ h := by cases h
  required _ _ h := by cases h
  roots _ h := absurd h List.not_mem_nil

/-- Entering a task keeps every request accounted for. -/
theorem Accounted.enter (h : Accounted r roots s) (hcoherent : s.Coherent) {rest : List Frame}
    (hstack : s.stack = .enter t :: rest) :
    Accounted r roots (r.enter { s with stack := rest } t) := by
  have hentering := hcoherent.entering hstack
  have henters := r.enters { s with stack := rest } t
  generalize r.enter { s with stack := rest } t = s' at henters ⊢
  have hgrows : s.Grows s' := ⟨henters.grows.resolved, henters.grows.conflicts, henters.grows.edges⟩
  have hsettled : Settled r s' t.parent t.name t.constraint := hentering.settled henters
  have hrest : ∀ f ∈ s.stack, f = .enter t ∨ f ∈ s'.stack := by
    intro f hf
    rw [hstack] at hf
    exact (List.mem_cons.mp hf).imp_right henters.mem_stack
  have htasks : ∀ u, .enter u ∈ s.stack →
      .enter u ∈ s'.stack ∨ Settled r s' u.parent u.name u.constraint := by
    intro u hu
    rcases hrest _ hu with heq | hu
    · cases heq
      exact .inr hsettled
    · exact .inl hu
  exact {
    chosen := fun name spec hspec => by
      rcases henters.resolved_cases hspec with hold | ⟨hname, _, hchoose, _⟩
      · exact h.chosen name spec hold
      · rw [PackageName.ext hname]
        exact ⟨_, hchoose⟩
    required := fun name spec hspec dep hdep => by
      rcases henters.resolved_cases hspec with hold | ⟨hname, _, _, hpushed⟩
      · exact (h.required name spec hold dep hdep).mono hgrows htasks
      · rw [PackageName.ext hname]
        obtain ⟨u, hu, hfields⟩ := Task.exists_requiredChild hdep t.name
        exact .inl ⟨u, hpushed u (List.mem_append_left _ hu), hfields⟩
    roots := fun root hroot => by
      rcases h.roots root hroot with hwaits | hentered
      · rcases hrest _ hwaits with heq | hwaits
        · cases heq
          exact .inr (hentering.entered henters)
        · exact .inl hwaits
      · refine .inr (hentered.mono hgrows htasks fun spec hspec hholds => ?_)
        rcases henters.resolved_cases hspec with hold | ⟨hname, hnew, hchoose, _⟩
        · exact hold
        · -- The package is chosen after the root was entered: then the version fails the root.
          obtain ⟨f, hfail⟩ := hentered.unavailable hnew
          have heq : PackageName.of root.name = t.name := PackageName.ext hname
          rw [heq] at hfail
          rw [Resolver.not_holds_of_choose_error hchoose hfail] at hholds
          cases hholds }

/-- Leaving a package changes no request. -/
theorem Accounted.leave (h : Accounted r roots s) {rest : List Frame}
    (hstack : s.stack = .leave name :: rest) :
    Accounted r roots { s with stack := rest, path := s.path.erase name } := by
  have hgrows : s.Grows { s with stack := rest, path := s.path.erase name } :=
    ⟨fun _ _ => id, fun _ => id, fun _ _ => id⟩
  have htasks : ∀ u, .enter u ∈ s.stack → .enter u ∈ rest := by
    intro u hu
    rw [hstack] at hu
    exact (List.mem_cons.mp hu).resolve_left Frame.noConfusion
  exact {
    chosen := h.chosen
    required := fun name spec hspec dep hdep =>
      (h.required name spec hspec dep hdep).mono hgrows fun u hu => .inl (htasks u hu)
    roots := fun root hroot => by
      rcases h.roots root hroot with hwaits | hentered
      · exact .inl (htasks _ hwaits)
      · exact .inr (hentered.mono hgrows (fun u hu => .inl (htasks u hu)) fun _ hspec _ => hspec) }

/-- One more root waits on the stack. -/
theorem Accounted.pushRoot (h : Accounted r roots s) (root : Requirement) :
    Accounted r (roots ++ [root]) { s with stack := .enter (Task.root root) :: s.stack } := by
  have hgrows : s.Grows { s with stack := .enter (Task.root root) :: s.stack } :=
    ⟨fun _ _ => id, fun _ => id, fun _ _ => id⟩
  exact {
    chosen := h.chosen
    required := fun name spec hspec dep hdep =>
      (h.required name spec hspec dep hdep).mono hgrows fun _ hu => .inl (List.mem_cons_of_mem _ hu)
    roots := fun root' hroot => by
      rcases List.mem_append.mp hroot with hroot | hroot
      · rcases h.roots root' hroot with hwaits | hentered
        · exact .inl (List.mem_cons_of_mem _ hwaits)
        · exact .inr (hentered.mono hgrows (fun _ hu => .inl (List.mem_cons_of_mem _ hu))
            fun _ hspec _ => hspec)
      · rw [List.mem_singleton.mp hroot]
        exact .inl List.mem_cons_self }

/-- Every request is accounted for in every state of every resolution. -/
theorem Resolver.Reached.accounted (h : r.Reached roots s) : Accounted r roots s := by
  refine h.invariant (P := Accounted r) (accounted_start r) ?_ ?_ ?_
  · intro _ _ root _ haccounted
    exact haccounted.pushRoot root
  · intro _ _ _ _ hreached hstack haccounted
    exact haccounted.enter hreached.coherent hstack
  · intro _ _ _ _ hstack haccounted
    exact haccounted.leave hstack

/-! ### With nothing left to do -/

theorem Session.Handles.settled (h : s.Handles r name dep) (hstack : s.stack = []) :
    Settled r s (some name) dep.1 dep.2 := by
  rcases h with ⟨u, hu, _⟩ | hsettled
  · rw [hstack] at hu
    cases hu
  · exact hsettled

theorem Accounted.settled_root (h : Accounted r roots s) (hstack : s.stack = [])
    {root : Requirement} (hroot : root ∈ roots) : s.Entered r root := by
  rcases h.roots root hroot with hwaits | hentered
  · rw [hstack] at hwaits
    cases hwaits
  · exact hentered

/-- Every dependency in force is settled. -/
theorem Accounted.settled (h : Accounted r roots s) (hstack : s.stack = [])
    (hspec : s.resolved.get? name.text = some spec) (hforce : InForce roots name.text spec dep) :
    Settled r s (some name) dep.1 dep.2 := by
  cases hforce with
  | required hdep => exact (h.required name spec hspec dep hdep).settled hstack
  | extra hroot hname hholds hoffers =>
    have heq : PackageName.of _ = name := PackageName.ext hname
    have hhandled := (h.settled_root hstack hroot).extras spec (hname ▸ hspec) hholds dep hoffers
    rw [heq] at hhandled
    exact hhandled.settled hstack

/-! ### What is chosen is known -/

/-- A chosen spec is known under the name of its package. -/
theorem Accounted.knows (h : Accounted r roots s)
    (hspec : s.resolved.get? name.text = some spec) : r.registry.Knows name spec := by
  obtain ⟨constraint, hchoose⟩ := h.chosen name spec hspec
  exact Resolver.knows_of_choose hchoose

/-- A package of an answer stands under a name in normal form, with a spec that is known under
this name. -/
theorem Resolver.knows_of_resolved {n : String}
    (hn : (r.resolve roots).resolved.get? n = some spec) :
    ∃ name : PackageName, name.text = n ∧ r.registry.Knows name spec := by
  have hreached := (r.reached_afterRoots roots).1
  rw [r.resolved_resolve] at hn
  obtain ⟨name, rfl⟩ := hreached.coherent.packageName hn
  exact ⟨name, rfl, hreached.accounted.knows hn⟩

/-- Every package of an answer stands under the name of its spec. -/
theorem Resolver.name_of_resolved (hindexed : r.registry.Indexed) {n : String}
    (hn : (r.resolve roots).resolved.get? n = some spec) : spec.name.text = n := by
  obtain ⟨name, rfl, hknows⟩ := knows_of_resolved hn
  rw [hindexed.name_of_knows hknows]

/-! ### What the answer says -/

namespace Resolution

/-- A package is chosen at a version that satisfies a constraint. -/
def Meets (R : Resolution) (name : String) (constraint : Constraint) : Prop :=
  ∃ spec, R.resolved.get? name = some spec ∧ constraint.holds spec.version = true

/-- A conflict names a package. -/
def Blames (R : Resolution) (name : String) : Prop := ∃ c ∈ R.conflicts, c.package = name

/-- A successful resolution blames nothing. -/
theorem not_blames_of_isSuccessful {R : Resolution} (h : R.isSuccessful = true) (name : String) :
    ¬ R.Blames name := by
  rintro ⟨c, hc, _⟩
  rw [isSuccessful, List.isEmpty_iff] at h
  rw [h] at hc
  cases hc

end Resolution

theorem Settled.meets_or_blames {parent : Option PackageName}
    (h : Settled r s parent name constraint) (order : List String) :
    ((⟨s.resolved, s.conflicts, order⟩ : Resolution).Meets name.text constraint ∧
      ∀ p, parent = some p → s.graph.Edge p.text name.text) ∨
    (⟨s.resolved, s.conflicts, order⟩ : Resolution).Blames name.text := by
  rcases h.cases with ⟨spec, hspec, hholds, hedge⟩ | hblamed
  · exact .inl ⟨⟨spec, hspec, hholds⟩, hedge⟩
  · exact .inr hblamed

/-- Every root is met or blamed, and so is every dependency in force of a chosen package; one
that is met stands before that package in the order of installation, which lists the chosen
packages. A successful resolution therefore meets all of them. -/
theorem every_request_accounted (r : Resolver) (roots : List Requirement) :
    (∀ root ∈ roots,
      (r.resolve roots).Meets (normalize root.name) root.constraint ∨
        (r.resolve roots).Blames (normalize root.name)) ∧
    (∀ name spec, (r.resolve roots).resolved.get? name = some spec →
      ∀ dep, InForce roots name spec dep →
        ((r.resolve roots).Meets dep.1.text dep.2 ∧
          (r.resolve roots).order.idxOf dep.1.text < (r.resolve roots).order.idxOf name) ∨
        (r.resolve roots).Blames dep.1.text) ∧
    (r.resolve roots).order.Perm (r.resolve roots).resolved.keys ∧
    ((r.resolve roots).isSuccessful = true →
      (∀ root ∈ roots, (r.resolve roots).Meets (normalize root.name) root.constraint) ∧
      ∀ name spec, (r.resolve roots).resolved.get? name = some spec →
        ∀ dep, InForce roots name spec dep →
          (r.resolve roots).Meets dep.1.text dep.2 ∧
            (r.resolve roots).order.idxOf dep.1.text < (r.resolve roots).order.idxOf name) := by
  obtain ⟨hreached, hstack⟩ := r.reached_afterRoots roots
  obtain ⟨order, -, hfinish, -, hperm, hfirst⟩ := hreached.coherent.finish
  rw [r.resolve_eq_finish, hfinish]
  generalize r.afterRoots roots = s at hreached hstack hperm hfirst ⊢
  generalize order.map (·.name) = names at hperm hfirst ⊢
  have hroots : ∀ root ∈ roots,
      (⟨s.resolved, s.conflicts, names⟩ : Resolution).Meets (normalize root.name) root.constraint ∨
        (⟨s.resolved, s.conflicts, names⟩ : Resolution).Blames (normalize root.name) := by
    intro root hroot
    exact ((hreached.accounted.settled_root hstack hroot).settled.meets_or_blames names).imp_left
      And.left
  have hdependencies : ∀ name spec, s.resolved.get? name = some spec →
      ∀ dep, InForce roots name spec dep →
        ((⟨s.resolved, s.conflicts, names⟩ : Resolution).Meets dep.1.text dep.2 ∧
          names.idxOf dep.1.text < names.idxOf name) ∨
        (⟨s.resolved, s.conflicts, names⟩ : Resolution).Blames dep.1.text := by
    intro n spec hspec dep hforce
    obtain ⟨name, rfl⟩ := hreached.coherent.packageName hspec
    have hsettled := hreached.accounted.settled hstack hspec hforce
    exact (hsettled.meets_or_blames names).imp_left fun h =>
      ⟨h.1, hfirst _ _ (h.2 name rfl)⟩
  refine ⟨hroots, hdependencies, hperm, fun hsuccess => ⟨fun root hroot => ?_, ?_⟩⟩
  · exact (hroots root hroot).resolve_right (Resolution.not_blames_of_isSuccessful hsuccess _)
  · intro name spec hspec dep hforce
    exact (hdependencies name spec hspec dep hforce).resolve_right
      (Resolution.not_blames_of_isSuccessful hsuccess _)

end Depsolve
