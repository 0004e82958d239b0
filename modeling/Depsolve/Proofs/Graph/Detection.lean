import Depsolve.Proofs.Graph.Canonical
import Depsolve.Proofs.Graph.Path

/-!
The search for a cycle is exact, and the cycle that it names is one.

* `Tracing` is what `Finishing` leaves out of the invariant of the depth-first search: a package
  leads to all that stands above the place where it was marked. So a package that is finished
  while one of its dependencies is still open is led to by that dependency, which is what
  `Tracing.behind` keeps for good.
* `transGen_of_cycleMember?`: hence a dependent that comes late lies on a cycle.
* `Walking` is the invariant of the walk along links that lead back. The walk never leaves the
  packages that lie on a cycle, so there always is such a link, and `Walking.walkCycle` says that
  it closes a cycle where it ends.
* `cycle_detection_exact` puts the parts together.
-/

namespace Depsolve.DependencyGraph

/-- A way along dependencies that meets no package twice and whose last package depends on the
first. -/
def SimpleCycle (g : DependencyGraph) (cycle : List String) : Prop :=
  ∃ first last, g.SimpleChain first last cycle ∧ g.Edge last first

variable {g : DependencyGraph} {name current top : String}
  {unmarked unvisited stack rest finished order passed path above names : List String}

/-- Every package of a cycle depends on another one, so it is a package of the graph. -/
theorem SimpleCycle.mem_names {cycle : List String} (h : g.SimpleCycle cycle) :
    ∀ n ∈ cycle, n ∈ g.names := by
  obtain ⟨first, last, hchain, hedge⟩ := h
  have hclosed : (cycle ++ [first]).IsChain g.Edge := by
    refine List.isChain_append.mpr ⟨hchain.linked, .singleton _, fun x hx y hy => ?_⟩
    obtain rfl : last = x := Option.some.inj (hchain.last.symm.trans hx)
    obtain rfl : first = y := Option.some.inj hy
    exact hedge
  intro n hn
  obtain ⟨m, hnext⟩ := exists_next_of_isChain hclosed n hn
  exact hnext.dependent_mem

/-! ### Open packages -/

/-- A package that is marked and not finished, at the place of the stack where it was marked. An
entry of the same package further down is one that was put there before. -/
structure Open (unmarked stack finished above : List String) (name : String) : Prop where
  place : ∃ below, stack = above ++ name :: below
  marked : name ∉ unmarked
  unfinished : name ∉ finished
  first : name ∉ above

/-- Every entry of the stack that is marked and not finished belongs to an open package. -/
theorem exists_open (hstack : name ∈ stack) (hmarked : name ∉ unmarked)
    (hunfinished : name ∉ finished) : ∃ above, Open unmarked stack finished above name := by
  obtain ⟨above, below, hplace, hfirst⟩ := List.eq_append_cons_of_mem hstack
  exact ⟨above, ⟨below, hplace⟩, hmarked, hunfinished, hfirst⟩

/-- Of the packages that are open after one was marked, that one is the topmost, and the others
were open before. -/
theorem Open.of_mark {more : List String} (hmore : ∀ n ∈ more, n ∈ without [top] unmarked)
    (h : Open (without [top] unmarked) (more ++ top :: rest) finished above name) :
    name = top ∧ above = more ∨
      ∃ before, above = more ++ top :: before ∧
        Open unmarked (top :: rest) finished (top :: before) name := by
  obtain ⟨⟨below, hplace⟩, hmarked, hunfinished, hfirst⟩ := h
  rcases List.append_eq_append_iff.mp hplace with
    ⟨between, habove, hbetween⟩ | ⟨between, hin, hbelow⟩
  · rcases List.cons_eq_append_iff.mp hbetween with ⟨rfl, heq⟩ | ⟨before, rfl, hrest⟩
    · exact .inl ⟨List.head_eq_of_cons_eq heq, by simpa using habove⟩
    · subst habove
      have hne : name ≠ top := by
        rintro rfl
        simp at hfirst
      refine .inr ⟨before, rfl, ⟨below, by rw [hrest, List.cons_append]⟩, fun hunmarked => ?_,
        hunfinished, fun hmem => hfirst (List.mem_append_right _ hmem)⟩
      exact hmarked (by simp [without, hunmarked, hne])
  · cases between with
    | nil => exact .inl ⟨List.head_eq_of_cons_eq hbelow, by simpa using hin.symm⟩
    | cons first between =>
      -- a package that was just put on the stack is not marked
      obtain rfl : name = first := List.head_eq_of_cons_eq hbelow
      exact absurd (hmore name (by simp [hin])) hmarked

/-- A package that is open after the topmost one was finished was open before. -/
theorem Open.of_pop
    (h : Open unmarked rest (if top ∈ finished then finished else top :: finished) above name) :
    Open unmarked (top :: rest) finished (top :: above) name := by
  obtain ⟨⟨below, hplace⟩, hmarked, hunfinished, hfirst⟩ := h
  have hsplit : name ∉ finished ∧ name ≠ top := by
    split at hunfinished
    · rename_i htop
      exact ⟨hunfinished, fun heq => hunfinished (heq ▸ htop)⟩
    · exact ⟨fun hmem => hunfinished (List.mem_cons_of_mem _ hmem),
        fun heq => hunfinished (heq ▸ List.mem_cons_self)⟩
  exact ⟨⟨below, by rw [hplace, List.cons_append]⟩, hmarked, hsplit.1, by simp [hsplit.2, hfirst]⟩

/-! ### What the depth-first search leads to -/

/-- What the search keeps beside `Finishing`: an open package leads to all that stands above it,
where its unmarked dependencies are, and a finished one was finished after its dependencies, but
for those that lead to it. -/
structure Tracing (g : DependencyGraph) (unmarked stack finished : List String) : Prop extends
    g.Finishing unmarked stack finished where
  leads : ∀ above name, Open unmarked stack finished above name →
    ∀ n ∈ above, Relation.ReflTransGen g.Edge name n
  awaits : ∀ above name, Open unmarked stack finished above name →
    ∀ n ∈ unmarked, g.Edge name n → n ∈ above
  distinct : finished.Nodup
  behind : ∀ before name after, finished = before ++ name :: after →
    ∀ n, g.Edge name n → n ∈ after ∨ Relation.ReflTransGen g.Edge n name

theorem tracing_start (g : DependencyGraph) : g.Tracing g.names [] [] where
  toFinishing := g.finishing_start
  leads _ _ hopen := absurd hopen.place (by simp)
  awaits _ _ hopen := absurd hopen.place (by simp)
  distinct := .nil
  behind _ _ _ hsplit := absurd hsplit (by simp)

/-- An unmarked package is put on the empty stack. -/
theorem Tracing.push (h : g.Tracing unmarked [] finished) (hname : name ∈ unmarked) :
    g.Tracing unmarked [name] finished := by
  have hclosed : ∀ above n, ¬ Open unmarked [name] finished above n := by
    rintro above n ⟨⟨below, hplace⟩, hmarked, -⟩
    have hmem : n ∈ [name] := by simp [hplace]
    exact hmarked (List.mem_singleton.mp hmem ▸ hname)
  exact
    { toFinishing := h.toFinishing.push name
      leads := fun above n hopen => absurd hopen (hclosed above n)
      awaits := fun above n hopen => absurd hopen (hclosed above n)
      distinct := h.distinct
      behind := h.behind }

/-- The package on top is marked, and its unmarked dependencies go on top of it. -/
theorem Tracing.mark (h : g.Tracing unmarked (top :: rest) finished) (hself : ¬ g.Edge top top) :
    g.Tracing (without [top] unmarked)
      ((g.fresh (without [top] unmarked) top).reverse ++ top :: rest) finished := by
  have hmore : ∀ n ∈ (g.fresh (without [top] unmarked) top).reverse,
      n ∈ without [top] unmarked ∧ g.Edge top n := fun n hn =>
    (mem_fresh.mp (List.mem_reverse.mp hn)).symm
  exact
    { toFinishing := h.toFinishing.mark hself _
      leads := by
        intro above name hopen n hn
        rcases hopen.of_mark fun n hn => (hmore n hn).1 with ⟨rfl, rfl⟩ | ⟨before, rfl, hold⟩
        · exact .single (hmore n hn).2
        · rcases List.mem_append.mp hn with hfresh | hbefore
          · exact (h.leads _ name hold top List.mem_cons_self).tail (hmore n hfresh).2
          · exact h.leads _ name hold n hbefore
      awaits := by
        intro above name hopen n hn hedge
        rcases hopen.of_mark fun n hn => (hmore n hn).1 with ⟨rfl, rfl⟩ | ⟨before, rfl, hold⟩
        · exact List.mem_reverse.mpr (mem_fresh.mpr ⟨hedge, hn⟩)
        · exact List.mem_append_right _
            (h.awaits _ name hold n (List.mem_filter.mp hn).1 hedge)
      distinct := h.distinct
      behind := h.behind }

/-- A package that is finished has its dependencies behind it, or they are open and lead to it. -/
theorem Tracing.behind_top (h : g.Tracing unmarked (top :: rest) finished)
    (hmarked : top ∉ unmarked) (hunfinished : top ∉ finished) {n : String}
    (hedge : g.Edge top n) :
    n ∈ finished ∨ Relation.ReflTransGen g.Edge n top := by
  have htop : Open unmarked (top :: rest) finished [] top :=
    ⟨⟨rest, rfl⟩, hmarked, hunfinished, List.not_mem_nil⟩
  have hmet : n ∉ unmarked := fun hn => List.not_mem_nil (h.awaits [] top htop n hn hedge)
  rcases h.kept n hedge.dependency_mem with hn | hstack | hfinished
  · exact absurd hn hmet
  · by_cases hfinished : n ∈ finished
    · exact .inl hfinished
    · obtain ⟨above, hopen⟩ := exists_open hstack hmet hfinished
      -- whatever is open on the stack leads to the package on top
      cases above with
      | nil =>
        obtain ⟨below, hplace⟩ := hopen.place
        rw [List.head_eq_of_cons_eq hplace]
        exact .inr .refl
      | cons first above =>
        obtain ⟨below, hplace⟩ := hopen.place
        obtain rfl : top = first := List.head_eq_of_cons_eq hplace
        exact .inr (h.leads _ n hopen top List.mem_cons_self)
  · exact .inl hfinished

/-- The package on top is finished. -/
theorem Tracing.pop (h : g.Tracing unmarked (top :: rest) finished) (hmarked : top ∉ unmarked) :
    g.Tracing unmarked rest (if top ∈ finished then finished else top :: finished) where
  toFinishing := h.toFinishing.pop
  leads above name hopen n hn := h.leads _ name hopen.of_pop n (List.mem_cons_of_mem _ hn)
  awaits above name hopen n hn hedge := by
    rcases List.mem_cons.mp (h.awaits _ name hopen.of_pop n hn hedge) with rfl | habove
    · exact absurd hn hmarked
    · exact habove
  distinct := by
    split
    · exact h.distinct
    · rename_i hunfinished
      exact List.nodup_cons.mpr ⟨hunfinished, h.distinct⟩
  behind before name after hsplit n hedge := by
    split at hsplit
    · exact h.behind before name after hsplit n hedge
    · rename_i hunfinished
      cases before with
      | nil =>
        obtain ⟨rfl, rfl⟩ := List.cons.inj hsplit
        exact h.behind_top hmarked hunfinished hedge
      | cons first before =>
        exact h.behind before name after (List.cons.inj hsplit).2 n hedge

/-- A search that comes to its end keeps the invariant. -/
theorem Tracing.finishFrom {state : List String × List String}
    (h : g.Tracing unmarked stack finished)
    (hsearch : g.finishFrom unmarked stack finished = .ok state) :
    g.Tracing state.1 [] state.2 := by
  fun_induction DependencyGraph.finishFrom g unmarked stack finished with
  | case1 =>
    cases hsearch
    exact h
  | case2 => cases hsearch
  | case3 unmarked finished top rest _ hself unmarked' ih =>
    exact ih (h.mark fun hedge => hself (mem_dependenciesOf.mpr hedge)) hsearch
  | case4 unmarked finished top rest hmarked ih => exact ih (h.pop hmarked) hsearch

/-- The searches from all packages keep the invariant. -/
theorem Tracing.foldlM {state state' : List String × List String} (h : g.Tracing state.1 [] state.2)
    (hsearch : names.foldlM g.finishNext state = .ok state') : g.Tracing state'.1 [] state'.2 := by
  induction names generalizing state with
  | nil =>
    cases hsearch
    exact h
  | cons name names ih =>
    rw [List.foldlM_cons, bind_eq_ok] at hsearch
    obtain ⟨next, hnext, hrest⟩ := hsearch
    refine ih ?_ hrest
    unfold finishNext at hnext
    split at hnext
    · rename_i hname
      exact (h.push hname).finishFrom hnext
    · cases hnext
      exact h

theorem tracing_of_finishOrder (h : g.finishOrder = .ok order) :
    ∃ unmarked, g.Tracing unmarked [] order := by
  obtain ⟨state, hsearch, hstate⟩ := bind_eq_ok.mp h
  cases hstate
  exact ⟨state.1, g.tracing_start.foldlM hsearch⟩

/-! ### A package that is found lies on a cycle -/

/-- A search is given up at a package that depends on itself only. -/
theorem edge_of_finishFrom_error (h : g.finishFrom unmarked stack finished = .error name) :
    g.Edge name name := by
  fun_induction DependencyGraph.finishFrom g unmarked stack finished with
  | case1 => cases h
  | case2 unmarked finished top rest _ hself =>
    cases h
    exact mem_dependenciesOf.mp hself
  | case3 _ _ _ _ _ _ _ ih => exact ih h
  | case4 _ _ _ _ _ ih => exact ih h

theorem edge_of_foldlM_error {state : List String × List String}
    (h : names.foldlM g.finishNext state = .error name) : g.Edge name name := by
  induction names generalizing state with
  | nil => cases h
  | cons first names ih =>
    rw [List.foldlM_cons] at h
    cases hnext : g.finishNext state first with
    | ok next =>
      rw [hnext] at h
      exact ih h
    | error found =>
      rw [hnext] at h
      cases h
      unfold finishNext at hnext
      split at hnext
      · exact edge_of_finishFrom_error hnext
      · cases hnext

theorem edge_of_finishOrder_error (h : g.finishOrder = .error name) : g.Edge name name := by
  unfold finishOrder at h
  cases hsearch : g.names.foldlM g.finishNext (g.names, []) with
  | ok state =>
    rw [hsearch] at h
    cases h
  | error found =>
    rw [hsearch] at h
    cases h
    exact edge_of_foldlM_error hsearch

/-- A dependent that comes late does not stand in front of the package that it depends on. -/
theorem late_of_lateDependent? {dependent : String}
    (h : g.lateDependent? passed order = some dependent) :
    dependent ∉ passed ∧ ∃ before name after, order = before ++ name :: after ∧
      g.Edge dependent name ∧ dependent ∉ before ∧ dependent ≠ name := by
  induction order generalizing passed with
  | nil => cases h
  | cons first order ih =>
    rw [lateDependent?] at h
    split at h
    · rename_i late hlate
      cases h
      obtain ⟨hdependent, hlate⟩ := List.mem_filter.mp (List.mem_of_getLast? hlate)
      obtain ⟨hne, hpassed⟩ : dependent ≠ first ∧ dependent ∉ passed := by simpa using hlate
      exact ⟨hpassed, [], first, order, rfl, mem_dependentsOf.mp hdependent, List.not_mem_nil, hne⟩
    · obtain ⟨hpassed, before, name, after, rfl, hedge, hbefore, hne⟩ := ih h
      obtain ⟨hfirst, hpassed⟩ := not_or.mp (mt List.mem_cons.mpr hpassed)
      exact ⟨hpassed, first :: before, name, after, rfl, hedge,
        fun hmem => (List.mem_cons.mp hmem).elim hfirst hbefore, hne⟩

/-- The package that is found lies on a cycle. -/
theorem transGen_of_cycleMember? (h : g.cycleMember? = some name) :
    Relation.TransGen g.Edge name name := by
  unfold cycleMember? at h
  split at h
  · rename_i found herror
    cases h
    exact .single (edge_of_finishOrder_error herror)
  · rename_i order horder
    obtain ⟨-, before, dependency, after, hsplit, hedge, hbefore, hne⟩ := late_of_lateDependent? h
    obtain ⟨unmarked, htracing⟩ := tracing_of_finishOrder horder
    have hafter : name ∈ after := by
      have hmem := (finished_of_finishOrder horder hedge.dependent_mem).1
      simpa [hsplit, hbefore, hne] using hmem
    obtain ⟨between, behind, rfl⟩ := List.append_of_mem hafter
    rw [List.append_cons, ← List.append_assoc] at hsplit
    have hdistinct := htracing.distinct
    rw [hsplit] at hdistinct
    rcases htracing.behind _ name behind hsplit dependency hedge with hbehind | hback
    · -- the dependency stands in front of the package, and nowhere else
      exact absurd rfl ((List.nodup_append.mp hdistinct).2.2 dependency (by simp) dependency
        (List.mem_cons_of_mem _ hbehind))
    · exact .head' hedge hback

/-! ### The walk along a cycle -/

theorem reaches_eq_true (hsource : name ∈ g.names) (htarget : current ∈ g.names) :
    g.reaches name current = true ↔ Relation.ReflTransGen g.Edge name current := by
  rw [reaches, Option.isSome_iff_exists]
  constructor
  · rintro ⟨chain, hchain⟩
    exact (simpleChain_of_path? hchain).reaches
  · intro hreach
    cases hpath : g.path? name current with
    | none => exact absurd hreach (not_reaches_of_path? hsource htarget hpath)
    | some chain => exact ⟨chain, rfl⟩

/-- A package on a cycle has a dependency that leads back to it. -/
theorem exists_dependency_reaches (h : Relation.TransGen g.Edge name name) :
    ∃ next ∈ g.dependenciesOf name, g.reaches next name = true := by
  obtain ⟨next, hedge, hback⟩ := Relation.TransGen.head'_iff.mp h
  exact ⟨next, mem_dependenciesOf.mpr hedge,
    (reaches_eq_true hedge.dependency_mem hedge.dependent_mem).mpr hback⟩

/-- What the walk keeps: the package at hand lies on a cycle, the way to it follows dependencies
and meets no package twice, and all packages not on the way are unvisited. -/
structure Walking (g : DependencyGraph) (unvisited path : List String) (current : String) : Prop
    where
  cyclic : Relation.TransGen g.Edge current current
  unvisited_iff : ∀ n, n ∈ unvisited ↔ n ∈ g.names ∧ n ∉ path
  linked : (path ++ [current]).IsChain g.Edge
  distinct : path.Nodup

theorem walking_start (h : Relation.TransGen g.Edge name name) : g.Walking g.names [] name where
  cyclic := h
  unvisited_iff n := by simp
  linked := .singleton _
  distinct := .nil

/-- The walk goes on to a dependency that leads back. -/
theorem Walking.next {next : String} (h : g.Walking unvisited path current)
    (hcurrent : current ∈ unvisited) (hedge : g.Edge current next)
    (hback : Relation.ReflTransGen g.Edge next current) :
    g.Walking (without [current] unvisited) (path ++ [current]) next where
  cyclic := .tail' hback hedge
  unvisited_iff n := by
    simp only [without, List.mem_filter, h.unvisited_iff, List.mem_append, List.mem_singleton,
      decide_eq_true_eq, not_or, and_assoc]
  linked := by
    refine List.isChain_append.mpr ⟨h.linked, .singleton _, fun x hx y hy => ?_⟩
    obtain rfl : x = current := by simpa using hx.symm
    obtain rfl : y = next := by simpa using hy.symm
    exact hedge
  distinct := by
    have hnew := ((h.unvisited_iff current).mp hcurrent).2
    simpa using (List.nodup_cons.mpr ⟨hnew, h.distinct⟩).perm (List.perm_append_singleton _ _).symm

/-- Where the walk comes to a package again, the way from there on is a cycle. -/
theorem Walking.close (h : g.Walking unvisited path current) (hcurrent : current ∉ unvisited) :
    g.SimpleCycle (path.dropWhile (· ≠ current)) := by
  have hknown : current ∈ g.names := by
    obtain ⟨next, hedge, -⟩ := Relation.TransGen.head'_iff.mp h.cyclic
    exact hedge.dependent_mem
  have hpath : current ∈ path := by
    by_contra hnew
    exact hcurrent ((h.unvisited_iff current).mpr ⟨hknown, hnew⟩)
  obtain ⟨before, after, rfl, hfirst⟩ := List.eq_append_cons_of_mem hpath
  have hdrop : (before ++ current :: after).dropWhile (· ≠ current) = current :: after := by
    have hskipped : ∀ n ∈ before, decide (n ≠ current) = true := fun n hn =>
      decide_eq_true fun heq => hfirst (heq ▸ hn)
    rw [List.dropWhile_append_of_pos hskipped, List.dropWhile_cons, if_neg (by simp)]
  have hlinked := h.linked
  rw [List.append_assoc] at hlinked
  obtain ⟨hcycle, -, hclose⟩ := List.isChain_append.mp (List.isChain_append.mp hlinked).2.1
  have hlast : (current :: after).getLast? = some ((current :: after).getLast (by simp)) :=
    List.getLast?_eq_some_getLast _
  rw [hdrop]
  exact ⟨current, _, ⟨rfl, hlast, hcycle, (List.nodup_append.mp h.distinct).2.1⟩,
    hclose _ hlast current rfl⟩

theorem Walking.walkCycle (h : g.Walking unvisited path current) :
    g.SimpleCycle (g.walkCycle unvisited path current) := by
  fun_induction DependencyGraph.walkCycle g unvisited path current with
  | case1 unvisited path current hcurrent next hnext ih =>
    have hedge := mem_dependenciesOf.mp (List.mem_of_find?_eq_some hnext)
    have hback := List.find?_some hnext
    have hreach := (reaches_eq_true hedge.dependency_mem hedge.dependent_mem).mp hback
    exact ih (h.next hcurrent hedge hreach)
  | case2 unvisited path current hcurrent hnone =>
    obtain ⟨next, hnext, hback⟩ := exists_dependency_reaches h.cyclic
    exact absurd hback (List.find?_eq_none.mp hnone next hnext)
  | case3 unvisited path current hcurrent => exact h.close hcurrent

/-! ### The answers -/

/-- The names of the cycle that is found are those of a cycle. -/
theorem simpleCycle_of_cycle? {cycle : List PackageId} (h : g.cycle? = some cycle) :
    (∀ p ∈ cycle, p ∈ g.packages) ∧ g.SimpleCycle (cycle.map (·.name)) := by
  obtain ⟨name, hmember, rfl⟩ := Option.map_eq_some_iff.mp h
  have hcycle := (walking_start (transGen_of_cycleMember? hmember)).walkCycle
  refine ⟨fun p hp => ?_, ?_⟩
  · obtain ⟨n, -, hn⟩ := List.mem_filterMap.mp hp
    exact List.mem_of_find?_eq_some hn
  · rwa [names_filterMap_package? hcycle.mem_names]

theorem cycle?_eq_none_iff : g.cycle? = none ↔ g.Acyclic := by
  rw [cycle?, Option.map_eq_none_iff]
  refine ⟨acyclic_of_cycleMember?, fun hacyclic => ?_⟩
  rw [Option.eq_none_iff_forall_ne_some]
  exact fun name hmember => hacyclic name (transGen_of_cycleMember? hmember)

theorem validate_eq_error_iff {e : GraphError} :
    g.validate = .error e ↔
      ∃ cycle, g.cycle? = some cycle ∧ e = .cycle (formatCycle (cycle.map (·.name))) := by
  rw [validate]
  cases g.cycle? with
  | none => simp
  | some cycle => simpa using eq_comm

/-- A graph without an order of installation is refused with the cycle that is found in it. -/
theorem installationOrder_eq_error_iff {e : GraphError} :
    g.installationOrder = .error e ↔ g.validate = .error e := by
  by_cases hacyclic : g.Acyclic
  · have hpasses : g.validate = .ok () := by
      rw [validate, cycle?_eq_none_iff.mpr hacyclic]
    rw [installationOrder_eq_of_acyclic hacyclic, hpasses]
    exact iff_of_false (fun h => by cases h) (fun h => by cases h)
  · have hlength := length_emitted_ne hacyclic
    rw [← length_emitted] at hlength
    rw [installationOrder, if_neg hlength]
    cases g.validate with
    | ok => exact iff_of_false (fun h => by cases h) (fun h => by cases h)
    | error found =>
      rw [Except.map, Except.error.injEq, Except.error.injEq]

/-- A cycle is found just where there is one, self-dependencies included. What is found is a
cycle: packages of the graph, none of them twice, each depending on the next and the last on the
first. The check for cycles and the order of installation fail on the graphs that have one, with
the same error, which shows the cycle that is found. -/
theorem cycle_detection_exact (g : DependencyGraph) :
    (g.cycle? = none ↔ g.Acyclic) ∧
    (∀ cycle, g.cycle? = some cycle →
      (∀ p ∈ cycle, p ∈ g.packages) ∧ g.SimpleCycle (cycle.map (·.name))) ∧
    (∀ e, g.validate = .error e ↔
      ∃ cycle, g.cycle? = some cycle ∧ e = .cycle (formatCycle (cycle.map (·.name)))) ∧
    (∀ e, g.installationOrder = .error e ↔ g.validate = .error e) :=
  ⟨cycle?_eq_none_iff, fun _ => simpleCycle_of_cycle?, fun _ => validate_eq_error_iff,
    fun _ => installationOrder_eq_error_iff⟩

end Depsolve.DependencyGraph
