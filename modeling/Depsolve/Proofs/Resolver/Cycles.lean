import Depsolve.Proofs.Resolver.Accounted

/-!
The circular conflicts of a resolution are cycles of declared dependencies, and no cycle goes
unreported.

* `DependsOn` is what the chosen specs declare, `RestsOn` the part of it that the choices
  satisfy.
* `Genuine` is the invariant: every task, every link of the graph and every circular conflict
  is backed by declarations. Both detectors of cycles come down to one case, a chain in the
  graph from a task's package to the package that asks for it.
* `circular_conflicts_sound_complete` adds the converse. A dependency that the choices satisfy
  is a link of the graph unless its cycle was reported, and the graph has no cycle.
-/

namespace Depsolve

variable {r : Resolver} {roots : List Requirement} {s s' : Session} {t : Task}
  {resolved resolved' : InsertionMap String PackageSpec} {a b : String}

/-! ### Declared dependencies -/

/-- The chosen spec of one package has a dependency on another in force. -/
def DependsOn (roots : List Requirement) (resolved : InsertionMap String PackageSpec)
    (a b : String) : Prop :=
  ∃ spec dep, resolved.get? a = some spec ∧ InForce roots a spec dep ∧ dep.1.text = b

/-- The chosen spec of one package has a dependency on another in force which the version
chosen for that satisfies. -/
def RestsOn (roots : List Requirement) (resolved : InsertionMap String PackageSpec)
    (a b : String) : Prop :=
  ∃ spec dep chosen, resolved.get? a = some spec ∧ InForce roots a spec dep ∧
    dep.1.text = b ∧ resolved.get? b = some chosen ∧ dep.2.holds chosen.version = true

theorem InForce.mono {name : String} {spec : PackageSpec} {dep : PackageName × Constraint}
    (h : InForce roots name spec dep) {more : List Requirement} (hsub : ∀ q ∈ roots, q ∈ more) :
    InForce more name spec dep := by
  cases h with
  | required hdep => exact .required hdep
  | extra hroot hname hholds hoffers => exact .extra (hsub _ hroot) hname hholds hoffers

/-- A declaration stays one when more is chosen and more roots are asked for. -/
theorem DependsOn.mono (h : DependsOn roots resolved a b) {more : List Requirement}
    (hsub : ∀ q ∈ roots, q ∈ more)
    (hkept : ∀ name spec, resolved.get? name = some spec → resolved'.get? name = some spec) :
    DependsOn more resolved' a b := by
  obtain ⟨spec, dep, hspec, hforce, hname⟩ := h
  exact ⟨spec, dep, hkept _ _ hspec, hforce.mono hsub, hname⟩

/-- A way along declared dependencies that meets no package twice but ends where it began. -/
structure Circuit (roots : List Requirement) (resolved : InsertionMap String PackageSpec)
    (first : String) (others : List String) : Prop where
  distinct : (first :: others).Nodup
  linked : (first :: (others ++ [first])).IsChain (DependsOn roots resolved)

theorem Circuit.mono {first : String} {others : List String}
    (h : Circuit roots resolved first others) {more : List Requirement}
    (hsub : ∀ q ∈ roots, q ∈ more)
    (hkept : ∀ name spec, resolved.get? name = some spec → resolved'.get? name = some spec) :
    Circuit more resolved' first others :=
  ⟨h.distinct, h.linked.imp fun _ _ hdepends => hdepends.mono hsub hkept⟩

/-- Along declared dependencies all packages but the last have a declaration, so they are
chosen. -/
theorem mem_keys_of_isChain {names : List String} {last : String}
    (h : (names ++ [last]).IsChain (DependsOn roots resolved)) :
    ∀ n ∈ names, n ∈ resolved.keys := by
  intro n hn
  obtain ⟨_, _, _, hspec, _⟩ := DependencyGraph.exists_next_of_isChain h n hn
  exact InsertionMap.mem_keys_of_get? hspec

theorem Circuit.mem_keys {first : String} {others : List String}
    (h : Circuit roots resolved first others) : ∀ n ∈ first :: others, n ∈ resolved.keys :=
  mem_keys_of_isChain h.linked

/-- A chain of the graph is closed to a circuit by one more declaration. -/
theorem DependencyGraph.SimpleChain.circuit {g : DependencyGraph} {chain : List String}
    (h : g.SimpleChain a b chain) (hedges : ∀ x y, g.Edge x y → DependsOn roots resolved x y)
    (hback : DependsOn roots resolved b a) :
    ∃ others, chain = a :: others ∧ Circuit roots resolved a others := by
  obtain ⟨hfirst, hlast, hlinked, hdistinct⟩ := h
  cases chain with
  | nil => cases hfirst
  | cons first others =>
    cases hfirst
    refine ⟨others, rfl, hdistinct, ?_⟩
    rw [← List.cons_append]
    refine List.isChain_append.mpr ⟨hlinked.imp hedges, .singleton _, fun x hx y hy => ?_⟩
    rw [hlast] at hx
    cases hx
    cases hy
    exact hback

/-! ### What a step adds -/

/-- A recorded dependency adds at most the link from the package that asks. -/
theorem Session.Records.edge_cases (h : s.Records t s') (hedge : s'.graph.Edge a b) :
    s.graph.Edge a b ∨ ∃ parent, t.parent = some parent ∧ a = parent.text ∧ b = t.name.text := by
  cases h with
  | root => exact .inl hedge
  | cycle => exact .inl hedge
  | link hparent hdependent hdependency _ =>
    rcases (DependencyGraph.edge_link hdependent hdependency).mp hedge with hold | ⟨ha, hb⟩
    · exact .inl hold
    · exact .inr ⟨_, hparent, ha, hb⟩

/-- A cycle that is reported for a task is a chain in the graph to the package that asks. -/
def Session.Closes (s : Session) (t : Task) (c : Conflict) : Prop :=
  ∃ parent chain, t.parent = some parent ∧ s.graph.SimpleChain t.name.text parent.text chain ∧
    c = .cycle (chain ++ [t.name.text])

theorem Session.Closes.mono {c : Conflict} (h : s.Closes t c) (hgrows : s.Grows s') :
    s'.Closes t c := by
  obtain ⟨parent, chain, hparent, ⟨hfirst, hlast, hlinked, hdistinct⟩, hc⟩ := h
  exact ⟨parent, chain, hparent, ⟨hfirst, hlast, hlinked.imp hgrows.edges, hdistinct⟩, hc⟩

theorem Session.Records.conflict_cases (h : s.Records t s') {c : Conflict}
    (hc : c ∈ s'.conflicts) : c ∈ s.conflicts ∨ s'.Closes t c := by
  cases h with
  | root => exact .inl hc
  | link => exact .inl hc
  | cycle hparent hchain =>
    refine (List.mem_append.mp hc).imp_right fun hnew => ?_
    exact ⟨_, _, hparent, hchain, List.mem_singleton.mp hnew⟩

/-- The path from one of its packages on is a chain in the graph. -/
theorem Session.Coherent.simpleChain_of_path (h : s.Coherent) {outer inner : List PackageName}
    {name parent : PackageName} (hsplit : s.path = outer ++ name :: inner)
    (hlast : s.path.getLast? = some parent) :
    s.graph.SimpleChain name.text parent.text ((name :: inner).map (·.text)) where
  first := rfl
  last := by
    rw [hsplit, List.getLast?_append_cons] at hlast
    rw [List.getLast?_map, hlast]
    rfl
  linked := by
    have hlinked := h.path_linked
    rw [hsplit] at hlinked
    rw [List.isChain_map]
    exact (List.isChain_append.mp hlinked).2.1
  distinct := by
    have hdistinct := h.nested.path_nodup
    rw [hsplit] at hdistinct
    exact (List.nodup_append.mp hdistinct).2.1.map fun _ _ => PackageName.ext

/-- A package on the path is joined to the end of the path by a chain in the graph. -/
theorem Session.Entering.closes_of_mem_path (h : s.Entering t) (hpath : t.name ∈ s.path) :
    s.Closes t
      (.cycle ((s.path.dropWhile (· ≠ t.name)).map (·.text) ++ [t.name.text])) := by
  rcases h.position with ⟨_, hempty⟩ | ⟨before, parent, hparent, heq, _⟩
  · rw [hempty] at hpath
    cases hpath
  · obtain ⟨outer, inner, hsplit, hnew⟩ := List.eq_append_cons_of_mem hpath
    have hdrop : s.path.dropWhile (· ≠ t.name) = t.name :: inner := by
      rw [hsplit, List.dropWhile_append_of_pos, List.dropWhile_cons_of_neg (by simp)]
      intro n hn
      have hne : n ≠ t.name := fun heq => hnew (heq ▸ hn)
      simpa using hne
    rw [hdrop]
    exact ⟨parent, _, hparent, h.coherent.simpleChain_of_path hsplit (by simp [heq]), rfl⟩

theorem Session.kind_failure (s : Session) (context : Context) (t : Task) (f : SelectionFailure) :
    (s.failure context t f).kind ≠ .circular := by
  cases f <;> exact ConflictKind.noConfusion

/-- The step that enters a task adds at most the link from the package that asks for it. -/
theorem Session.Entering.edge_cases (h : s.Entering t) (henters : r.Enters s t s')
    (hedge : s'.graph.Edge a b) :
    s.graph.Edge a b ∨ ∃ parent, t.parent = some parent ∧ a = parent.text ∧ b = t.name.text := by
  cases henters with
  | cycle => exact .inl hedge
  | disagree => exact .inl hedge
  | fail => exact .inl hedge
  | reuse _ hresolved => exact (h.records hresolved).edge_cases hedge
  | reopen _ hresolved => exact (h.records hresolved).edge_cases hedge
  | @accept spec =>
    rcases (h.records_chosen spec).edge_cases hedge with hold | hnew
    · exact .inl (DependencyGraph.edge_add.mp hold)
    · exact .inr hnew

/-- A circular conflict that the step adds is a cycle through the package that asks. -/
theorem Session.Entering.circular_cases (h : s.Entering t) (henters : r.Enters s t s')
    {c : Conflict} (hc : c ∈ s'.conflicts) (hkind : c.kind = .circular) :
    c ∈ s.conflicts ∨ s'.Closes t c := by
  cases henters with
  | cycle hpath =>
    refine (List.mem_append.mp hc).imp_right fun hnew => ?_
    rw [List.mem_singleton.mp hnew]
    exact (h.closes_of_mem_path hpath).mono (s.grows_report _)
  | disagree =>
    refine .inl ((List.mem_append.mp hc).resolve_right fun hnew => ?_)
    rw [List.mem_singleton.mp hnew] at hkind
    cases hkind
  | fail =>
    refine .inl ((List.mem_append.mp hc).resolve_right fun hnew => ?_)
    rw [List.mem_singleton.mp hnew] at hkind
    exact s.kind_failure _ _ _ hkind
  | reuse _ hresolved => exact (h.records hresolved).conflict_cases hc
  | reopen _ hresolved =>
    exact ((h.records hresolved).conflict_cases hc).imp_right
      fun hcloses => hcloses.mono (Session.grows_descend _ _ _)
  | @accept spec =>
    exact ((h.records_chosen spec).conflict_cases hc).imp_right
      fun hcloses => hcloses.mono (Session.grows_descend _ _ _)

/-- The tasks that a step puts on the stack are those of the package it enters. -/
theorem Resolver.Enters.stack_cases (h : r.Enters s t s') {u : Task} (hu : .enter u ∈ s'.stack) :
    .enter u ∈ s.stack ∨ ∃ spec, s'.resolved.get? t.name.text = some spec ∧
      t.constraint.holds spec.version = true ∧ u ∈ Session.tasksOf t spec := by
  have hdescend : ∀ (s : Session) (tasks : List Task),
      .enter u ∈ (s.descend t.name tasks).stack → .enter u ∈ s.stack ∨ u ∈ tasks := by
    intro s tasks hu
    rcases List.mem_append.mp hu with hu | hu
    · obtain ⟨v, hv, heq⟩ := List.mem_map.mp hu
      cases heq
      exact .inr hv
    · exact .inl ((List.mem_cons.mp hu).resolve_left Frame.noConfusion)
  cases h with
  | cycle => exact .inl hu
  | disagree => exact .inl hu
  | fail => exact .inl hu
  | reuse =>
    rw [Session.stack_recordEdge] at hu
    exact .inl hu
  | reopen _ hresolved hholds _ =>
    rcases hdescend _ _ hu with hu | hu
    · rw [Session.stack_recordEdge] at hu
      exact .inl hu
    · refine .inr ⟨_, ?_, hholds, List.mem_append_right _ hu⟩
      rwa [Session.resolved_descend, Session.resolved_recordEdge]
  | accept _ _ hchoose =>
    rcases hdescend _ _ hu with hu | hu
    · rw [Session.stack_recordEdge] at hu
      exact .inl hu
    · refine .inr ⟨_, ?_, Resolver.holds_of_choose hchoose, hu⟩
      rw [Session.resolved_descend, Session.resolved_recordEdge, Session.chosen,
        InsertionMap.get?_insert, if_pos rfl]

/-! ### The invariant -/

/-- Where a task comes from: it is that of a root, or a dependency in force of the package
that asks for it. -/
inductive Task.Declared (roots : List Requirement) (resolved : InsertionMap String PackageSpec)
    (t : Task) : Prop where
  | root {root : Requirement} (hroot : root ∈ roots) (htask : t = Task.root root)
  | child {parent : PackageName} {spec : PackageSpec} (hparent : t.parent = some parent)
      (hresolved : resolved.get? parent.text = some spec)
      (hforce : InForce roots parent.text spec (t.name, t.constraint))

theorem Task.Declared.mono (h : t.Declared roots resolved) {more : List Requirement}
    (hsub : ∀ q ∈ roots, q ∈ more)
    (hkept : ∀ name spec, resolved.get? name = some spec → resolved'.get? name = some spec) :
    t.Declared more resolved' := by
  cases h with
  | root hroot htask => exact .root (hsub _ hroot) htask
  | child hparent hresolved hforce =>
    exact .child hparent (hkept _ _ hresolved) (hforce.mono hsub)

theorem Task.Declared.dependsOn (h : t.Declared roots resolved) {parent : PackageName}
    (hparent : t.parent = some parent) : DependsOn roots resolved parent.text t.name.text := by
  cases h with
  | root _ htask =>
    rw [htask] at hparent
    cases hparent
  | child hsome hresolved hforce =>
    rw [hsome] at hparent
    cases hparent
    exact ⟨_, _, hresolved, hforce, rfl⟩

/-- The tasks of a package that is entered are declared by its spec. The groups are those of
a root: no other task asks for any. -/
theorem Task.Declared.tasksOf (h : t.Declared roots resolved) {path : List PackageName}
    (hposition : t.At path) {spec : PackageSpec}
    (hresolved : resolved.get? t.name.text = some spec)
    (hholds : t.constraint.holds spec.version = true) {u : Task}
    (hu : u ∈ Session.tasksOf t spec) : u.Declared roots resolved := by
  refine .child (Session.of_mem_tasksOf hu).1 hresolved ?_
  rcases List.mem_append.mp hu with hu | hu
  · obtain ⟨dep, hdep, rfl⟩ := Task.mem_children.mp hu
    exact .required hdep
  · have hoffers := Task.offers_of_mem_extraChildren hu
    cases h with
    | root hroot htask =>
      subst htask
      exact .extra hroot rfl hholds hoffers
    | child hparent _ _ =>
      rcases hposition with ⟨hnone, _⟩ | ⟨_, _, _, _, hextras⟩
      · rw [hnone] at hparent
        cases hparent
      · obtain ⟨group, hgroup, _⟩ := hoffers
        rw [hextras] at hgroup
        cases hgroup

/-- Nothing in a session is made up: the tasks, the links of the graph and the cycles that were
reported are all declared. -/
structure Genuine (roots : List Requirement) (s : Session) : Prop where
  tasks : ∀ t, .enter t ∈ s.stack → t.Declared roots s.resolved
  edges : ∀ a b, s.graph.Edge a b → DependsOn roots s.resolved a b
  circuits : ∀ c ∈ s.conflicts, c.kind = .circular →
    ∃ first others, c = .cycle (first :: (others ++ [first])) ∧
      Circuit roots s.resolved first others

theorem genuine_start : Genuine [] Session.start where
  tasks _ h := absurd h List.not_mem_nil
  edges _ _ h := absurd h (by rintro ⟨_, hl, _⟩; cases hl)
  circuits _ h := absurd h List.not_mem_nil

theorem Genuine.enter (h : Genuine roots s) (hcoherent : s.Coherent) {rest : List Frame}
    (hstack : s.stack = .enter t :: rest) :
    Genuine roots (r.enter { s with stack := rest } t) := by
  have hentering := hcoherent.entering hstack
  have henters := r.enters { s with stack := rest } t
  generalize r.enter { s with stack := rest } t = s' at henters ⊢
  have hkept := henters.grows.resolved
  have hsame : ∀ q ∈ roots, q ∈ roots := fun _ => id
  have hdeclared : t.Declared roots s'.resolved :=
    (h.tasks t (by simp [hstack])).mono hsame hkept
  have hedges : ∀ a b, s'.graph.Edge a b → DependsOn roots s'.resolved a b := by
    intro a b hedge
    rcases hentering.edge_cases henters hedge with hold | ⟨parent, hparent, rfl, rfl⟩
    · exact (h.edges a b hold).mono hsame hkept
    · exact hdeclared.dependsOn hparent
  exact {
    tasks := fun u hu => by
      rcases henters.stack_cases hu with hold | ⟨spec, hspec, hholds, hmem⟩
      · have hwaits : .enter u ∈ s.stack := by
          rw [hstack]
          exact List.mem_cons_of_mem _ hold
        exact (h.tasks u hwaits).mono hsame hkept
      · exact hdeclared.tasksOf hentering.position hspec hholds hmem
    edges := hedges
    circuits := fun c hc hkind => by
      rcases hentering.circular_cases henters hc hkind with hold | hcloses
      · obtain ⟨first, others, heq, hcircuit⟩ := h.circuits c hold hkind
        exact ⟨first, others, heq, hcircuit.mono hsame hkept⟩
      · obtain ⟨parent, chain, hparent, hchain, rfl⟩ := hcloses
        obtain ⟨others, rfl, hcircuit⟩ :=
          hchain.circuit hedges (hdeclared.dependsOn hparent)
        exact ⟨_, others, rfl, hcircuit⟩ }

theorem Genuine.leave (h : Genuine roots s) {name : PackageName} {rest : List Frame}
    (hstack : s.stack = .leave name :: rest) :
    Genuine roots { s with stack := rest, path := s.path.erase name } where
  tasks t ht := h.tasks t (by rw [hstack]; exact List.mem_cons_of_mem _ ht)
  edges := h.edges
  circuits := h.circuits

theorem Genuine.pushRoot (h : Genuine roots s) (root : Requirement) :
    Genuine (roots ++ [root]) { s with stack := .enter (Task.root root) :: s.stack } := by
  have hsub : ∀ q ∈ roots, q ∈ roots ++ [root] := fun _ => List.mem_append_left _
  have hkept : ∀ name spec, s.resolved.get? name = some spec →
    s.resolved.get? name = some spec := fun _ _ => id
  exact {
    tasks := fun t ht => by
      rcases List.mem_cons.mp ht with heq | ht
      · cases heq
        exact .root (List.mem_append_right _ (List.mem_singleton_self root)) rfl
      · exact (h.tasks t ht).mono hsub hkept
    edges := fun a b hedge => (h.edges a b hedge).mono hsub hkept
    circuits := fun c hc hkind => by
      obtain ⟨first, others, heq, hcircuit⟩ := h.circuits c hc hkind
      exact ⟨first, others, heq, hcircuit.mono hsub hkept⟩ }

/-- Nothing is made up in any state of any resolution. -/
theorem Resolver.Reached.genuine (h : r.Reached roots s) : Genuine roots s := by
  refine h.invariant (P := Genuine) genuine_start ?_ ?_ ?_
  · intro _ _ root _ hgenuine
    exact hgenuine.pushRoot root
  · intro _ _ _ _ hreached hstack hgenuine
    exact hgenuine.enter hreached.coherent hstack
  · intro _ _ _ _ hstack hgenuine
    exact hgenuine.leave hstack

/-! ### The answer of a resolution -/

/-- With nothing left to do, a dependency that the choices satisfy is a link of the graph, or
its cycle was reported. -/
theorem Resolver.Reached.edge_of_restsOn (h : r.Reached roots s) (hstack : s.stack = [])
    (hrests : RestsOn roots s.resolved a b) :
    s.graph.Edge a b ∨ ∃ c ∈ s.conflicts, c.kind = .circular := by
  obtain ⟨spec, dep, chosen, hspec, hforce, rfl, hchosen, hholds⟩ := hrests
  obtain ⟨name, rfl⟩ := h.coherent.packageName hspec
  cases h.accounted.settled hstack hspec hforce with
  | satisfied _ _ hedge => exact .inl (hedge name rfl)
  | circular _ hc hkind _ => exact .inr ⟨_, hc, hkind⟩
  | disagrees hresolved hfails _ _ =>
    rw [hchosen] at hresolved
    cases hresolved
    rw [hholds] at hfails
    cases hfails
  | unavailable hfail _ _ =>
    -- The version was chosen for another request, and it would do for this one.
    obtain ⟨constraint, hchoose⟩ := h.accounted.chosen dep.1 chosen hchosen
    rw [Resolver.not_holds_of_choose_error hchoose hfail] at hholds
    cases hholds

/-- Every circular conflict lists a circuit of declared dependencies between chosen packages,
beginning and ending with the package that the conflict names. If the dependencies that the
choices satisfy form a cycle, there is a circular conflict. -/
theorem circular_conflicts_sound_complete (r : Resolver) (roots : List Requirement) :
    (∀ c ∈ (r.resolve roots).conflicts, c.kind = .circular →
      ∃ others, c.specs = c.package :: (others ++ [c.package]) ∧
        (c.package :: others).Nodup ∧
        (∀ n ∈ c.package :: others, n ∈ (r.resolve roots).resolved.keys) ∧
        c.specs.IsChain (DependsOn roots (r.resolve roots).resolved)) ∧
    ∀ n, Relation.TransGen (RestsOn roots (r.resolve roots).resolved) n n →
      ∃ c ∈ (r.resolve roots).conflicts, c.kind = .circular := by
  obtain ⟨hreached, hstack⟩ := r.reached_afterRoots roots
  rw [r.conflicts_resolve, r.resolved_resolve]
  generalize r.afterRoots roots = s at hreached hstack ⊢
  constructor
  · intro c hc hkind
    obtain ⟨first, others, rfl, hcircuit⟩ := hreached.genuine.circuits c hc hkind
    have hpackage : (Conflict.cycle (first :: (others ++ [first]))).package = first :=
      Conflict.package_cycle (first :: others) first
    rw [hpackage]
    exact ⟨others, rfl, hcircuit.distinct, hcircuit.mem_keys, hcircuit.linked⟩
  · intro n hcycle
    by_contra hnone
    have hedges : ∀ a b, RestsOn roots s.resolved a b → s.graph.Edge a b := fun a b hrests =>
      (hreached.edge_of_restsOn hstack hrests).resolve_right hnone
    exact hreached.coherent.acyclic n (Relation.TransGen.mono hedges n n hcycle)

end Depsolve
