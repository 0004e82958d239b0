import Depsolve.Graph.InstallationOrder
import Depsolve.Proofs.Graph.Edge
import Depsolve.Proofs.SortedMap
import Mathlib.Data.Fintype.Card
import Mathlib.Data.List.Permutation
import Mathlib.Data.Set.Finite.List
import Mathlib.Order.WellFounded

/-!
The countdown puts every package after its dependencies, and in a graph without cycles it
gets to all of them.

* `Counting` is the invariant of the countdown while the dependents of the package that was
  installed last are told one by one: the count of a package is the number of its
  dependencies that are not installed, one more if it was not told yet.
* `counting_after` carries it through a whole run, on every graph.
* `installationOrder_of_acyclic`: without a cycle there is always a package that waits for
  nothing, so the order is a permutation of the packages.
-/

namespace Depsolve

/-- A place in a list with one more entry is the last one or a place in the list. -/
theorem last_or_before_of_snoc {α : Type} {xs before after : List α} {x y : α}
    (h : xs ++ [x] = before ++ y :: after) :
    xs = before ∧ x = y ∨ ∃ rest, xs = before ++ y :: rest := by
  rcases List.eq_nil_or_concat after with rfl | ⟨rest, last, rfl⟩
  · obtain ⟨hxs, hlast⟩ := List.append_inj' h rfl
    exact .inl ⟨hxs, List.head_eq_of_cons_eq hlast⟩
  · rw [List.concat_eq_append, ← List.cons_append, ← List.append_assoc] at h
    exact .inr ⟨rest, (List.append_inj' h rfl).1⟩

end Depsolve

namespace Depsolve.DependencyGraph

/-- Every package of the list stands after all of its dependencies. -/
def DependenciesFirst (g : DependencyGraph) (order : List String) : Prop :=
  ∀ before name after, order = before ++ name :: after → ∀ d, g.Edge name d → d ∈ before

/-- The dependencies of a package that are not installed. -/
def outstanding (g : DependencyGraph) (order : List String) (name : String) : List String :=
  without order (g.dependenciesOf name)

variable {g : DependencyGraph} {c : Countdown} {name n : String} {order late : List String}

theorem mem_outstanding {d : String} :
    d ∈ g.outstanding order name ↔ g.Edge name d ∧ d ∉ order := by
  simp [outstanding, without, mem_dependenciesOf]

theorem outstanding_eq_nil_iff :
    g.outstanding order name = [] ↔ ∀ d, g.Edge name d → d ∈ order := by
  rw [List.eq_nil_iff_forall_not_mem]
  simp only [mem_outstanding, not_and, not_not]

/-- A dependency that gets installed is outstanding no longer, and no other changes. -/
theorem length_outstanding_install (h : name ∉ order) :
    (g.outstanding order n).length =
      (g.outstanding (order ++ [name]) n).length + if g.Edge n name then 1 else 0 := by
  have hsplit : g.outstanding (order ++ [name]) n = (g.outstanding order n).filter (· ≠ name) := by
    simp only [outstanding, without, List.filter_filter]
    refine List.filter_congr fun d _ => ?_
    simp [and_comm]
  have hdistinct : (g.outstanding order n).Nodup := (g.nodup_dependenciesOf n).filter _
  by_cases hedge : g.Edge n name
  · have hmem : name ∈ g.outstanding order n := mem_outstanding.mpr ⟨hedge, h⟩
    have hpos : 0 < (g.outstanding order n).length := List.length_pos_of_mem hmem
    have hfilter : (g.outstanding order n).filter (· ≠ name) = (g.outstanding order n).erase name := by
      rw [hdistinct.erase_eq_filter]
      exact List.filter_congr fun d _ => by simp [bne, beq_eq_decide]
    rw [hsplit, hfilter, List.length_erase_of_mem hmem, if_pos hedge]
    omega
  · have hsame : (g.outstanding order n).filter (· ≠ name) = g.outstanding order n := by
      refine List.filter_eq_self.mpr fun d hd => decide_eq_true fun heq => hedge ?_
      exact heq ▸ (mem_outstanding.mp hd).1
    rw [hsplit, hsame, if_neg hedge, Nat.add_zero]

theorem DependenciesFirst.snoc (h : g.DependenciesFirst order)
    (hname : ∀ d, g.Edge name d → d ∈ order) : g.DependenciesFirst (order ++ [name]) := by
  intro before m after heq d hedge
  rcases last_or_before_of_snoc heq with ⟨rfl, rfl⟩ | ⟨rest, hsplit⟩
  · exact hname d hedge
  · exact h before m rest hsplit d hedge

theorem DependenciesFirst.mem {d : String} (h : g.DependenciesFirst order) (hn : n ∈ order)
    (hedge : g.Edge n d) : d ∈ order := by
  obtain ⟨before, after, rfl⟩ := List.append_of_mem hn
  exact List.mem_append_left _ (h before n after rfl d hedge)

/-- In an order without repetition the dependency has the lower place. -/
theorem DependenciesFirst.idxOf_lt {d : String} (h : g.DependenciesFirst order)
    (hdistinct : order.Nodup) (hn : n ∈ order) (hedge : g.Edge n d) :
    order.idxOf d < order.idxOf n := by
  obtain ⟨before, after, rfl⟩ := List.append_of_mem hn
  have hd : d ∈ before := h before n after rfl d hedge
  have hnew : n ∉ before := by
    intro hmem
    exact (List.nodup_append.mp hdistinct).2.2 n hmem n (by simp) rfl
  rw [List.idxOf_append_of_mem hd, List.idxOf_append_of_notMem hnew, List.idxOf_cons_self,
    Nat.add_zero]
  exact List.idxOf_lt_length_of_mem hd

/-! ### The invariant of the countdown -/

/-- What the countdown keeps, where `late` are the dependents of the package installed last
that were not told yet. -/
structure Counting (g : DependencyGraph) (c : Countdown) (late : List String) : Prop where
  pending : ∀ n ∈ g.names, c.pending.get? n =
    some ((g.outstanding c.order n).length + if n ∈ late then 1 else 0)
  ready : ∀ place n, (place, n) ∈ c.ready.entries ↔
    place = g.position n ∧ n ∈ g.names ∧ n ∉ c.order ∧ g.outstanding c.order n = [] ∧ n ∉ late
  late_known : ∀ n ∈ late, n ∈ g.names ∧ n ∉ c.order
  order_known : ∀ n ∈ c.order, n ∈ g.names
  order_distinct : c.order.Nodup
  dependencies_first : g.DependenciesFirst c.order

theorem position_inj {m : String} (hn : n ∈ g.names) (h : g.position n = g.position m) : n = m :=
  (List.idxOf_inj hn).mp h

theorem nodup_names (g : DependencyGraph) : g.names.Nodup := g.names_distinct

theorem counting_start (g : DependencyGraph) : g.Counting g.countdownStart [] where
  pending n hn := by
    have hkeys : ((g.names.map fun n => (n, (g.dependenciesOf n).length)).map (·.1)).Nodup := by
      simpa [List.map_map, Function.comp_def] using g.nodup_names
    refine SortedMap.get?_eq_some_iff.mpr ((SortedMap.mem_entries_ofList hkeys).mpr ?_)
    refine List.mem_map.mpr ⟨n, hn, ?_⟩
    simp [countdownStart, outstanding, without]
  ready place n := by
    have hplaces : (((g.names.filter fun n => (g.dependenciesOf n).isEmpty).map
        fun n => (g.position n, n)).map (·.1)).Nodup := by
      rw [List.map_map]
      refine List.Nodup.map_on (fun n hn m _ h => ?_) (g.nodup_names.filter _)
      exact position_inj (List.mem_filter.mp hn).1 h
    refine (SortedMap.mem_entries_ofList hplaces).trans ?_
    simp only [List.mem_map, List.mem_filter, List.isEmpty_iff, Prod.mk.injEq, countdownStart,
      outstanding, without, List.not_mem_nil, not_false_eq_true, decide_true, List.filter_true,
      true_and, and_true]
    constructor
    · rintro ⟨n, ⟨hn, hempty⟩, rfl, rfl⟩
      exact ⟨rfl, hn, hempty⟩
    · rintro ⟨rfl, hn, hempty⟩
      exact ⟨n, ⟨hn, hempty⟩, rfl, rfl⟩
  late_known _ h := absurd h List.not_mem_nil
  order_known _ h := absurd h List.not_mem_nil
  order_distinct := .nil
  dependencies_first before _ _ heq := by
    cases before <;> cases heq

/-- A package that waits for nothing is installed; its dependents are still to be told. -/
theorem Counting.install {place : Nat} (h : g.Counting c [])
    (hready : (place, name) ∈ c.ready.entries) :
    g.Counting { c with ready := c.ready.erase place, order := c.order ++ [name] }
      (g.dependentsOf name) := by
  obtain ⟨rfl, hname, hnew, hdone, -⟩ := (h.ready place name).mp hready
  have hdependencies := outstanding_eq_nil_iff.mp hdone
  exact {
    pending := fun n hn => by
      have hpending := h.pending n hn
      rw [length_outstanding_install hnew] at hpending
      simpa [mem_dependentsOf] using hpending
    ready := fun place n => by
      rw [SortedMap.mem_entries_erase, h.ready, mem_dependentsOf, List.mem_append,
        List.mem_singleton]
      simp only [List.not_mem_nil, not_false_eq_true, and_true, outstanding_eq_nil_iff,
        List.mem_append, List.mem_singleton, not_or]
      constructor
      · rintro ⟨⟨rfl, hn, hold, hall⟩, hplace⟩
        have hne : n ≠ name := fun heq => hplace (heq ▸ rfl)
        exact ⟨rfl, hn, ⟨hold, hne⟩, fun d hedge => .inl (hall d hedge),
          fun hedge => hnew (hall name hedge)⟩
      · rintro ⟨rfl, hn, ⟨hold, hne⟩, hall, hedge⟩
        refine ⟨⟨rfl, hn, hold, fun d hd => (hall d hd).resolve_right ?_⟩,
          fun hplace => hne (position_inj hn hplace)⟩
        rintro rfl
        exact hedge hd
    late_known := fun n hn => by
      have hedge : g.Edge n name := mem_dependentsOf.mp hn
      refine ⟨hedge.dependent_mem, fun hmem => hnew ?_⟩
      rcases List.mem_append.mp hmem with hold | hself
      · exact h.dependencies_first.mem hold hedge
      · rw [List.mem_singleton.mp hself] at hedge
        exact hdependencies name hedge
    order_known := fun n hn => by
      rcases List.mem_append.mp hn with hold | hself
      · exact h.order_known n hold
      · rw [List.mem_singleton.mp hself]
        exact hname
    order_distinct := by
      refine List.nodup_append.mpr ⟨h.order_distinct, by simp, fun n hn m hm heq => hnew ?_⟩
      rwa [← List.mem_singleton.mp hm, ← heq]
    dependencies_first := h.dependencies_first.snoc hdependencies }

/-- One dependent is told. Its count is positive, since one of its dependencies was just
installed. -/
theorem Counting.countDown (h : g.Counting c (n :: late)) (hn : n ∉ late) :
    g.Counting (g.countDown c n) late := by
  obtain ⟨hknown, hnew⟩ := h.late_known n List.mem_cons_self
  have hcount : c.pending.get? n = some ((g.outstanding c.order n).length + 1) := by
    simpa using h.pending n hknown
  have hremaining : (c.pending.get? n).getD 0 - 1 = (g.outstanding c.order n).length := by
    rw [hcount]
    rfl
  exact {
    pending := fun m hm => by
      simp only [DependencyGraph.countDown, hremaining, SortedMap.get?_insert,
        Std.LawfulEqOrd.compare_eq_iff_eq]
      by_cases hmn : m = n
      · subst hmn
        simp [hn]
      · rw [if_neg hmn, h.pending m hm]
        simp [hmn]
    ready := fun place m => by
      simp only [DependencyGraph.countDown, hremaining, List.length_eq_zero_iff]
      split
      · rename_i hdone
        rw [SortedMap.mem_entries_insert, h.ready, Prod.mk.injEq, List.mem_cons, not_or]
        constructor
        · rintro (⟨rfl, rfl⟩ | ⟨⟨rfl, hm, hold, hall, -, hlate⟩, -⟩)
          · exact ⟨rfl, hknown, hnew, hdone, hn⟩
          · exact ⟨rfl, hm, hold, hall, hlate⟩
        · rintro ⟨rfl, hm, hold, hall, hlate⟩
          by_cases hmn : m = n
          · exact .inl ⟨hmn ▸ rfl, hmn⟩
          · exact .inr ⟨⟨rfl, hm, hold, hall, hmn, hlate⟩, fun heq => hmn (position_inj hm heq)⟩
      · rename_i hwaiting
        rw [h.ready, List.mem_cons, not_or]
        constructor
        · rintro ⟨rfl, hm, hold, hall, -, hlate⟩
          exact ⟨rfl, hm, hold, hall, hlate⟩
        · rintro ⟨rfl, hm, hold, hall, hlate⟩
          exact ⟨rfl, hm, hold, hall, fun heq => hwaiting (heq ▸ hall), hlate⟩
    late_known := fun m hm => h.late_known m (List.mem_cons_of_mem _ hm)
    order_known := h.order_known
    order_distinct := h.order_distinct
    dependencies_first := h.dependencies_first }

/-- Some of the dependents are told, and the others are left to be told. -/
theorem Counting.foldl {told : List String} (h : g.Counting c (told ++ late))
    (hdistinct : (told ++ late).Nodup) : g.Counting (told.foldl g.countDown c) late := by
  induction told generalizing c with
  | nil => exact h
  | cons n told ih =>
    obtain ⟨hn, hrest⟩ := List.nodup_cons.mp hdistinct
    exact ih (h.countDown hn) hrest

theorem order_foldl_countDown (g : DependencyGraph) (c : Countdown) (late : List String) :
    (late.foldl g.countDown c).order = c.order := by
  induction late generalizing c with
  | nil => rfl
  | cons n late ih => exact ih (g.countDown c n)

theorem Counting.step (h : g.Counting c []) : g.Counting (g.countdownStep c) [] := by
  unfold countdownStep
  split
  · exact h
  · rename_i place name rest hentries
    have htold : g.Counting { c with ready := c.ready.erase place, order := c.order ++ [name] }
        (g.dependentsOf name ++ []) := by
      rw [List.append_nil]
      exact h.install (by simp [hentries])
    exact htold.foldl (by simpa using g.nodup_dependentsOf name)

/-- Every state of the countdown satisfies the invariant, whether there are cycles or not. -/
theorem counting_after (g : DependencyGraph) (steps : Nat) :
    g.Counting (g.countdownAfter steps) [] := by
  induction steps with
  | zero => exact g.counting_start
  | succ steps ih => exact ih.step

/-! ### How far the countdown gets -/

/-- Each step installs a package as long as one waits for nothing. -/
theorem length_order_after (g : DependencyGraph) (steps : Nat) :
    (g.countdownAfter steps).order.length = steps ∨
      (g.countdownAfter steps).ready.entries = [] := by
  induction steps with
  | zero => exact .inl rfl
  | succ steps ih =>
    rw [countdownAfter, countdownStep]
    split
    · rename_i hstuck
      exact .inr hstuck
    · rename_i place name rest hentries
      refine .inl ?_
      rw [order_foldl_countDown, List.length_append, List.length_singleton]
      rcases ih with hlength | hstuck
      · rw [hlength]
      · rw [hentries] at hstuck
        cases hstuck

/-- Without a cycle, among some packages there is one that depends on none of them. -/
theorem Acyclic.exists_least (h : g.Acyclic) {waiting : List String} (hne : waiting ≠ []) :
    ∃ n ∈ waiting, ∀ d, g.Edge n d → d ∉ waiting := by
  let R : {n // n ∈ waiting} → {n // n ∈ waiting} → Prop :=
    fun a b => Relation.TransGen g.Edge b.1 a.1
  have : Finite {n // n ∈ waiting} := (List.finite_toSet waiting).to_subtype
  have : IsTrans _ R := ⟨fun _ _ _ hab hbc => hbc.trans hab⟩
  have : Std.Irrefl R := ⟨fun a => h a.1⟩
  obtain ⟨n, hn⟩ := List.exists_mem_of_ne_nil waiting hne
  obtain ⟨least, -, hleast⟩ :=
    (Finite.wellFounded_of_trans_of_irrefl R).has_min Set.univ ⟨⟨n, hn⟩, trivial⟩
  exact ⟨least.1, least.2, fun d hedge hd => hleast ⟨d, hd⟩ trivial (.single hedge)⟩

/-- A countdown that is stuck in a graph without cycles has installed everything. -/
theorem Counting.mem_order_of_stuck (h : g.Counting c []) (hacyclic : g.Acyclic)
    (hstuck : c.ready.entries = []) (hn : n ∈ g.names) : n ∈ c.order := by
  by_contra hnew
  have hwaiting : without c.order g.names ≠ [] := by
    refine List.ne_nil_of_mem (a := n) ?_
    simp [without, hn, hnew]
  obtain ⟨m, hm, hleast⟩ := hacyclic.exists_least hwaiting
  obtain ⟨hknown, hm⟩ : m ∈ g.names ∧ m ∉ c.order := by simpa [without] using hm
  have hdone : g.outstanding c.order m = [] := by
    refine outstanding_eq_nil_iff.mpr fun d hedge => ?_
    have := hleast d hedge
    simpa [without, hedge.dependency_mem] using this
  have hready := (h.ready (g.position m) m).mpr ⟨rfl, hknown, hm, hdone, List.not_mem_nil⟩
  rw [hstuck] at hready
  cases hready

/-- Without a cycle the countdown gets to every package. -/
theorem emitted_perm_names (h : g.Acyclic) : g.emitted.Perm g.names := by
  have hcounting := g.counting_after g.packages.length
  have hlength : g.names.length = g.packages.length := List.length_map _
  rcases g.length_order_after g.packages.length with hall | hstuck
  · refine (hcounting.order_distinct.subperm hcounting.order_known).perm_of_length_le ?_
    exact (hlength.trans hall.symm).le
  · refine (List.perm_ext_iff_of_nodup hcounting.order_distinct g.nodup_names).mpr fun n => ?_
    exact ⟨hcounting.order_known n, hcounting.mem_order_of_stuck h hstuck⟩

/-! ### The order of installation -/

theorem names_filterMap_package? {names : List String} (h : ∀ n ∈ names, n ∈ g.names) :
    (names.filterMap g.package?).map (·.name) = names := by
  induction names with
  | nil => rfl
  | cons n names ih =>
    obtain ⟨p, hp, hname⟩ := package?_eq_some (h n List.mem_cons_self)
    rw [List.filterMap_cons_some hp, List.map_cons, hname,
      ih fun m hm => h m (List.mem_cons_of_mem _ hm)]

/-- The packages that the countdown gets to, by their names. -/
theorem map_name_emitted (g : DependencyGraph) :
    (g.emitted.filterMap g.package?).map (·.name) = g.emitted :=
  names_filterMap_package? (g.counting_after g.packages.length).order_known

theorem length_emitted (g : DependencyGraph) :
    (g.emitted.filterMap g.package?).length = g.emitted.length := by
  rw [← List.length_map (·.name), map_name_emitted]

/-- Without a cycle the order of installation is that of the countdown. -/
theorem installationOrder_eq_of_acyclic (h : g.Acyclic) :
    g.installationOrder = .ok (g.emitted.filterMap g.package?) := by
  have hlength : (g.emitted.filterMap g.package?).length = g.packages.length := by
    rw [length_emitted, (emitted_perm_names h).length_eq]
    exact List.length_map _
  rw [installationOrder, if_pos hlength]

/-- A graph without cycles has an order of installation, which lists every package once and
after all of its dependencies. -/
theorem installationOrder_of_acyclic (h : g.Acyclic) :
    ∃ order, g.installationOrder = .ok order ∧ (order.map (·.name)).Perm g.names ∧
      g.DependenciesFirst (order.map (·.name)) := by
  refine ⟨g.emitted.filterMap g.package?, installationOrder_eq_of_acyclic h, ?_, ?_⟩
  · rw [map_name_emitted]
    exact emitted_perm_names h
  · rw [map_name_emitted]
    exact (g.counting_after g.packages.length).dependencies_first

end Depsolve.DependencyGraph
