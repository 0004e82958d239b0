import Depsolve.Proofs.Graph.Cycle
import Depsolve.Proofs.Graph.InstallationOrder
import Mathlib.Order.Nat

/-!
The order of installation is the first of all orders that put dependencies in front, compared
place by place with the order in which the packages were added.

* `Earliest` says of an order that every package was added before all others that could stand
  in its place. `earliest_after` proves it of the countdown, which takes the first of the
  packages that wait for nothing.
* `Earliest.eq_or_lex`: another order that puts dependencies in front agrees with such an order
  up to a place and has a package there that was added later, since its own package could stand
  in that place too.
* `installationOrder_canonical` adds that a graph has an order of installation where it has no
  cycle, and nowhere else.
-/

namespace Depsolve.DependencyGraph

/-- At every place of the order stands the package that was added first among those that are
not installed in front of it and do not wait for another. -/
def Earliest (g : DependencyGraph) (order : List String) : Prop :=
  ∀ before name after, order = before ++ name :: after → ∀ n ∈ g.names, n ∉ before →
    (∀ d, g.Edge n d → d ∈ before) → g.position name ≤ g.position n

variable {g : DependencyGraph} {c : Countdown} {name : String} {order : List String}

theorem Earliest.snoc (h : g.Earliest order)
    (hname : ∀ n ∈ g.names, n ∉ order → (∀ d, g.Edge n d → d ∈ order) →
      g.position name ≤ g.position n) : g.Earliest (order ++ [name]) := by
  intro before m after heq
  rcases last_or_before_of_snoc heq with ⟨rfl, rfl⟩ | ⟨rest, hsplit⟩
  · exact hname
  · exact h before m rest hsplit

/-! ### The countdown -/

/-- The package that is installed next was added before all others that wait for nothing. -/
theorem Counting.position_le {place : Nat} {rest : List (Nat × String)} (h : g.Counting c [])
    (hentries : c.ready.entries = (place, name) :: rest) {n : String} (hn : n ∈ g.names)
    (hnew : n ∉ c.order) (hdone : ∀ d, g.Edge n d → d ∈ c.order) :
    g.position name ≤ g.position n := by
  have hname : (place, name) ∈ c.ready.entries := by
    rw [hentries]
    exact List.mem_cons_self
  obtain ⟨rfl, -⟩ := (h.ready place name).mp hname
  have hready : (g.position n, n) ∈ c.ready.entries :=
    (h.ready _ n).mpr ⟨rfl, hn, hnew, outstanding_eq_nil_iff.mpr hdone, List.not_mem_nil⟩
  have hascending := c.ready.ascending
  rw [hentries] at hready hascending
  rcases List.mem_cons.mp hready with heq | hlater
  · exact (congrArg Prod.fst heq).ge
  · exact (Nat.compare_eq_lt.mp ((List.pairwise_cons.mp hascending).1 _ hlater)).le

/-- The countdown always installs the package that was added first. -/
theorem earliest_after (g : DependencyGraph) (steps : Nat) :
    g.Earliest (g.countdownAfter steps).order := by
  induction steps with
  | zero =>
    intro before _ _ heq
    cases before <;> cases heq
  | succ steps ih =>
    rw [countdownAfter, countdownStep]
    split
    · exact ih
    · rename_i place name rest hentries
      rw [order_foldl_countDown]
      exact ih.snoc fun n => (g.counting_after steps).position_le hentries

/-! ### Comparison with other orders -/

/-- Two orders that begin alike: where each package of the one is the earliest possible and the
other puts dependencies in front, the first difference is in favour of the one. -/
theorem Earliest.eq_or_lex_of_append {before other : List String}
    (h : g.Earliest (before ++ order)) (hfirst : g.DependenciesFirst (before ++ other))
    (hdistinct : (before ++ other).Nodup) (hknown : ∀ n ∈ other, n ∈ g.names)
    (hlength : order.length = other.length) :
    order = other ∨ List.Lex (fun a b => g.position a < g.position b) order other := by
  induction order generalizing before other with
  | nil => exact .inl (List.length_eq_zero_iff.mp hlength.symm).symm
  | cons name order ih =>
    cases other with
    | nil => cases hlength
    | cons n other =>
      have hn : n ∈ g.names := hknown n List.mem_cons_self
      have hnew : n ∉ before := fun hmem =>
        (List.nodup_append.mp hdistinct).2.2 n hmem n List.mem_cons_self rfl
      have hle : g.position name ≤ g.position n :=
        h before name order rfl n hn hnew (hfirst before n other rfl)
      rcases hle.lt_or_eq with hlt | heq
      · exact .inr (.rel hlt)
      · obtain rfl : n = name := position_inj hn heq.symm
        rw [List.append_cons] at h hfirst hdistinct
        have hrest := ih h hfirst hdistinct (fun m hm => hknown m (List.mem_cons_of_mem _ hm))
          (Nat.succ.inj hlength)
        exact hrest.imp (congrArg (n :: ·)) .cons

/-- An order in which every package stands as early as it can comes before all other orders
that put dependencies in front. -/
theorem Earliest.eq_or_lex (h : g.Earliest order) (hperm : order.Perm g.names) {other : List String}
    (hother : other.Perm g.names) (hfirst : g.DependenciesFirst other) :
    order = other ∨ List.Lex (fun a b => g.position a < g.position b) order other := by
  have hdistinct : other.Nodup := hother.nodup_iff.mpr g.nodup_names
  have hlength : order.length = other.length := (hperm.trans hother.symm).length_eq
  rw [← List.nil_append order] at h
  rw [← List.nil_append other] at hfirst hdistinct
  exact h.eq_or_lex_of_append hfirst hdistinct (fun _ => hother.mem_iff.mp) hlength

/-! ### The packages in order -/

/-- Every package is the one under its name. -/
theorem package?_name {p : PackageId} (h : p ∈ g.packages) : g.package? p.name = some p := by
  obtain ⟨q, hq, hname⟩ := package?_eq_some (List.mem_map_of_mem (f := (·.name)) h)
  have hmem : q ∈ g.packages := List.mem_of_find?_eq_some hq
  rw [hq, List.inj_on_of_nodup_map g.names_distinct hmem h hname]

theorem filterMap_package?_names (g : DependencyGraph) :
    g.names.filterMap g.package? = g.packages := by
  rw [names, List.filterMap_map]
  exact (List.filterMap_congr fun p hp => package?_name hp).trans List.filterMap_some

/-- An order of all packages that puts dependencies in front ranks them, so there is no cycle. -/
theorem DependenciesFirst.acyclic (h : g.DependenciesFirst order) (hperm : order.Perm g.names) :
    g.Acyclic :=
  acyclic_of_rank (order.idxOf ·) fun _ _ hedge =>
    h.idxOf_lt (hperm.nodup_iff.mpr g.nodup_names) (hperm.mem_iff.mpr hedge.dependent_mem) hedge

/-- In a graph with a cycle the countdown does not get to every package. -/
theorem length_emitted_ne (h : ¬ g.Acyclic) : g.emitted.length ≠ g.packages.length := by
  have hcounting := g.counting_after g.packages.length
  intro hlength
  refine h (hcounting.dependencies_first.acyclic ?_)
  refine (hcounting.order_distinct.subperm hcounting.order_known).perm_of_length_le ?_
  exact ((List.length_map _).trans hlength.symm).le

/-- A graph without a cycle has an order of installation. It lists every package once, each
after all of its dependencies, and of all orders that do so it is the first, compared place by
place with the order in which the packages were added. A graph with a cycle has none: the
answer is that there is a cycle. -/
theorem installationOrder_canonical (g : DependencyGraph) :
    (g.Acyclic → ∃ order, g.installationOrder = .ok order ∧ order.Perm g.packages ∧
      g.DependenciesFirst (order.map (·.name)) ∧
      ∀ other : List String, other.Perm g.names → g.DependenciesFirst other →
        order.map (·.name) = other ∨
          List.Lex (fun a b => g.position a < g.position b) (order.map (·.name)) other) ∧
    (¬ g.Acyclic → ∃ path, g.installationOrder = .error (.cycle path)) := by
  constructor
  · intro hacyclic
    have hperm : g.emitted.Perm g.names := emitted_perm_names hacyclic
    have hpackages : (g.emitted.filterMap g.package?).Perm g.packages :=
      g.filterMap_package?_names ▸ hperm.filterMap g.package?
    refine ⟨g.emitted.filterMap g.package?, installationOrder_eq_of_acyclic hacyclic, hpackages,
      ?_⟩
    rw [map_name_emitted]
    refine ⟨(g.counting_after g.packages.length).dependencies_first, fun other hother hfirst => ?_⟩
    exact (g.earliest_after g.packages.length).eq_or_lex hperm hother hfirst
  · intro hcyclic
    obtain ⟨path, hpath⟩ := validate_of_not_acyclic hcyclic
    have hlength := length_emitted_ne hcyclic
    rw [← length_emitted] at hlength
    refine ⟨path, ?_⟩
    rw [installationOrder, if_neg hlength, hpath]
    rfl

end Depsolve.DependencyGraph
