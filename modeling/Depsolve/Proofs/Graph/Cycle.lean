import Depsolve.Graph.Cycle
import Depsolve.Proofs.Except
import Depsolve.Proofs.Graph.Edge
import Mathlib.Order.Nat
import Mathlib.Order.OrderDual

/-!
The search for a cycle misses none.

* `Finishing` is the invariant of the depth-first search: a package is unmarked, on the stack
  or finished, and one that is marked does not depend on itself. `Finishing.finishFrom` carries
  it through a search, `Finishing.foldlM` through the searches from all packages.
* `edge_cases_of_lateDependent?`: where no dependent comes late, the dependents of a package
  stand in front of it.
* `validate_of_not_acyclic`: so the packages of a graph that passes can be ranked by their
  places in the order, and a graph with a cycle is refused.
-/

namespace Depsolve.DependencyGraph

variable {g : DependencyGraph} {name : String} {unmarked stack finished order passed : List String}

/-! ### The depth-first search -/

/-- What the search keeps: no package gets lost between the unmarked ones, the stack and the
finished ones, and no marked package depends on itself. -/
structure Finishing (g : DependencyGraph) (unmarked stack finished : List String) : Prop where
  kept : ∀ n ∈ g.names, n ∈ unmarked ∨ n ∈ stack ∨ n ∈ finished
  marked : ∀ n ∈ g.names, n ∉ unmarked → ¬ g.Edge n n

theorem finishing_start (g : DependencyGraph) : g.Finishing g.names [] [] where
  kept _ hn := .inl hn
  marked _ hn hmarked := absurd hn hmarked

theorem Finishing.push (h : g.Finishing unmarked [] finished) (name : String) :
    g.Finishing unmarked [name] finished where
  kept n hn := by
    rcases h.kept n hn with hunmarked | hnil | hfinished
    · exact .inl hunmarked
    · cases hnil
    · exact .inr (.inr hfinished)
  marked := h.marked

/-- The package on top is marked, and more packages go on top of it. -/
theorem Finishing.mark {top : String} {rest : List String}
    (h : g.Finishing unmarked (top :: rest) finished) (hself : ¬ g.Edge top top)
    (above : List String) :
    g.Finishing (without [top] unmarked) (above ++ top :: rest) finished where
  kept n hn := by
    by_cases htop : n = top
    · subst htop
      exact .inr (.inl (by simp))
    · rcases h.kept n hn with hunmarked | hstack | hfinished
      · exact .inl (by simp [without, hunmarked, htop])
      · exact .inr (.inl (List.mem_append_right _ hstack))
      · exact .inr (.inr hfinished)
  marked n hn hmarked := by
    by_cases htop : n = top
    · rwa [htop]
    · exact h.marked n hn fun hunmarked => hmarked (by simp [without, hunmarked, htop])

/-- The package on top is finished. -/
theorem Finishing.pop {top : String} {rest : List String}
    (h : g.Finishing unmarked (top :: rest) finished) :
    g.Finishing unmarked rest (if top ∈ finished then finished else top :: finished) where
  kept n hn := by
    have hmore : n = top ∨ n ∈ finished →
        n ∈ if top ∈ finished then finished else top :: finished := by
      rintro (rfl | hold)
      · split
        · assumption
        · exact List.mem_cons_self
      · split
        · exact hold
        · exact List.mem_cons_of_mem _ hold
    rcases h.kept n hn with hunmarked | hstack | hfinished
    · exact .inl hunmarked
    · rcases List.mem_cons.mp hstack with htop | hrest
      · exact .inr (.inr (hmore (.inl htop)))
      · exact .inr (.inl hrest)
    · exact .inr (.inr (hmore (.inr hfinished)))
  marked := h.marked

/-- A search that comes to its end has marked all that was on the stack, and unmarked none. -/
theorem Finishing.finishFrom {state : List String × List String}
    (h : g.Finishing unmarked stack finished)
    (hsearch : g.finishFrom unmarked stack finished = .ok state) :
    g.Finishing state.1 [] state.2 ∧ ∀ n ∈ state.1, n ∈ unmarked ∧ n ∉ stack := by
  fun_induction DependencyGraph.finishFrom g unmarked stack finished with
  | case1 =>
    cases hsearch
    exact ⟨h, fun n hn => ⟨hn, List.not_mem_nil⟩⟩
  | case2 => cases hsearch
  | case3 unmarked finished top rest _ hself unmarked' ih =>
    obtain ⟨hfinishing, hleft⟩ :=
      ih (h.mark (fun hedge => hself (mem_dependenciesOf.mpr hedge)) _) hsearch
    refine ⟨hfinishing, fun n hn => ?_⟩
    obtain ⟨hunmarked, hstack⟩ := hleft n hn
    exact ⟨(List.mem_filter.mp hunmarked).1, fun hmem => hstack (List.mem_append_right _ hmem)⟩
  | case4 unmarked finished top rest htop ih =>
    obtain ⟨hfinishing, hleft⟩ := ih h.pop hsearch
    refine ⟨hfinishing, fun n hn => ?_⟩
    obtain ⟨hunmarked, hrest⟩ := hleft n hn
    refine ⟨hunmarked, fun hmem => ?_⟩
    rcases List.mem_cons.mp hmem with rfl | hmem
    · exact htop hunmarked
    · exact hrest hmem

/-- The searches from some packages mark them all. -/
theorem Finishing.foldlM {names : List String} {state state' : List String × List String}
    (h : g.Finishing state.1 [] state.2) (hsearch : names.foldlM g.finishNext state = .ok state') :
    g.Finishing state'.1 [] state'.2 ∧ ∀ n ∈ state'.1, n ∈ state.1 ∧ n ∉ names := by
  induction names generalizing state with
  | nil =>
    cases hsearch
    exact ⟨h, fun n hn => ⟨hn, List.not_mem_nil⟩⟩
  | cons name names ih =>
    rw [List.foldlM_cons, bind_eq_ok] at hsearch
    obtain ⟨next, hnext, hrest⟩ := hsearch
    have hfirst : g.Finishing next.1 [] next.2 ∧ ∀ n ∈ next.1, n ∈ state.1 ∧ n ≠ name := by
      unfold finishNext at hnext
      split at hnext
      · obtain ⟨hfinishing, hleft⟩ := (h.push name).finishFrom hnext
        exact ⟨hfinishing, fun n hn => by simpa using hleft n hn⟩
      · rename_i hmarked
        cases hnext
        exact ⟨h, fun n hn => ⟨hn, fun heq => hmarked (heq ▸ hn)⟩⟩
    obtain ⟨hfinishing, hleft⟩ := ih hfirst.1 hrest
    refine ⟨hfinishing, fun n hn => ?_⟩
    obtain ⟨hunmarked, hnames⟩ := hleft n hn
    obtain ⟨hold, hne⟩ := hfirst.2 n hunmarked
    exact ⟨hold, by simp [hne, hnames]⟩

/-- Where the search comes to its end every package is finished, and none depends on itself. -/
theorem finished_of_finishOrder (h : g.finishOrder = .ok order) (hname : name ∈ g.names) :
    name ∈ order ∧ ¬ g.Edge name name := by
  obtain ⟨state, hsearch, hstate⟩ := bind_eq_ok.mp h
  cases hstate
  obtain ⟨hfinishing, hleft⟩ := g.finishing_start.foldlM hsearch
  have hmarked : name ∉ state.1 := fun hunmarked => (hleft name hunmarked).2 hname
  refine ⟨?_, hfinishing.marked name hname hmarked⟩
  rcases hfinishing.kept name hname with hunmarked | hnil | hfinished
  · exact absurd hunmarked hmarked
  · cases hnil
  · exact hfinished

/-! ### Late dependents -/

/-- Where no dependent comes late, those of a package stand in front of it. -/
theorem edge_cases_of_lateDependent? (h : g.lateDependent? passed order = none) {dependent : String}
    {before after : List String} (hsplit : order = before ++ name :: after)
    (hedge : g.Edge dependent name) :
    dependent = name ∨ dependent ∈ before ∨ dependent ∈ passed := by
  induction order generalizing passed before with
  | nil => simp at hsplit
  | cons first order ih =>
    rw [lateDependent?] at h
    split at h
    · cases h
    · rename_i hnone
      cases before with
      | nil =>
        obtain ⟨rfl, -⟩ := List.cons.inj hsplit
        rw [List.getLast?_eq_none_iff, List.filter_eq_nil_iff] at hnone
        have hpassed := hnone dependent (mem_dependentsOf.mpr hedge)
        simp only [decide_eq_true_eq, not_not, List.mem_cons] at hpassed
        exact hpassed.imp_right .inr
      | cons other before =>
        obtain ⟨rfl, hrest⟩ := List.cons.inj hsplit
        rcases ih h hrest with hself | hbefore | hpassed
        · exact .inl hself
        · exact .inr (.inl (List.mem_cons_of_mem _ hbefore))
        · rcases List.mem_cons.mp hpassed with rfl | hpassed
          · exact .inr (.inl List.mem_cons_self)
          · exact .inr (.inr hpassed)

/-- A graph in which no package is found on a cycle has none: every link leads from a lower
place of the order of the search to a higher one. -/
theorem acyclic_of_cycleMember? (h : g.cycleMember? = none) : g.Acyclic := by
  unfold cycleMember? at h
  split at h
  · cases h
  · rename_i order horder
    refine acyclic_of_rank (fun n => OrderDual.toDual (order.idxOf n)) fun a b hedge => ?_
    rw [OrderDual.toDual_lt_toDual]
    obtain ⟨hmem, hself⟩ := finished_of_finishOrder horder hedge.dependency_mem
    obtain ⟨before, after, hsplit, hnew⟩ := List.eq_append_cons_of_mem hmem
    have hbefore : a ∈ before := by
      rcases edge_cases_of_lateDependent? h hsplit hedge with rfl | hbefore | hnil
      · exact absurd hedge hself
      · exact hbefore
      · cases hnil
    rw [hsplit, List.idxOf_append_of_mem hbefore, List.idxOf_append_of_notMem hnew,
      List.idxOf_cons_self, Nat.add_zero]
    exact List.idxOf_lt_length_of_mem hbefore

/-- A graph with a cycle is refused with one. -/
theorem validate_of_not_acyclic (h : ¬ g.Acyclic) : ∃ path, g.validate = .error (.cycle path) := by
  cases hmember : g.cycleMember? with
  | none => exact absurd (acyclic_of_cycleMember? hmember) h
  | some name =>
    rw [validate, cycle?, hmember]
    exact ⟨_, rfl⟩

end Depsolve.DependencyGraph
