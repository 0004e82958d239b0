import Depsolve.Proofs.Graph.InstallationOrder

/-!
The countdown never counts below zero, and no package gets ready twice.

* `Counting.positive`: a dependent that is told waits for at least the package that was just
  installed, so its count can go down.
* `freedAfter` lists the packages in the order in which they come to wait for nothing, one entry
  each time the countdown puts a package among the ready ones. `Frees` is what it keeps: the
  entries are distinct, and they are what was installed and what is ready.
* `DependenciesFirst.not_mem_of_cycle`: a package from which a cycle can be reached would have to
  come after itself.
* `countdown_exact` puts this together for every state of the countdown on every graph, with
  cycles or without.
-/

namespace Depsolve

/-- The state in which a package was just installed and none of its dependents has been told. -/
def Countdown.install (c : Countdown) (place : Nat) (name : String) : Countdown :=
  { c with ready := c.ready.erase place, order := c.order ++ [name] }

namespace DependencyGraph

variable {g : DependencyGraph} {c : Countdown} {name n : String} {place : Nat}
  {late order log : List String} {rest : List (Nat × String)}

/-! ### Steps -/

theorem countdownStep_eq (hentries : c.ready.entries = (place, name) :: rest) :
    g.countdownStep c = (g.dependentsOf name).foldl g.countDown (c.install place name) := by
  unfold countdownStep
  rw [hentries]
  rfl

/-- The package in front of the ready ones gets installed. -/
theorem Counting.install_head (h : g.Counting c [])
    (hentries : c.ready.entries = (place, name) :: rest) :
    g.Counting (c.install place name) (g.dependentsOf name) :=
  h.install (by simp [hentries])

/-- The count of a package that is to be told is positive. -/
theorem Counting.positive (h : g.Counting c (n :: late)) :
    ∃ count, c.pending.get? n = some (count + 1) := by
  refine ⟨(g.outstanding c.order n).length, ?_⟩
  rw [h.pending n (h.late_known n List.mem_cons_self).1, if_pos List.mem_cons_self]

/-- The count of every dependent is positive when its turn comes. -/
theorem Counting.positive_of_told (h : g.Counting c (g.dependentsOf name)) {told : List String}
    (hsplit : g.dependentsOf name = told ++ n :: late) :
    ∃ count, (told.foldl g.countDown c).pending.get? n = some (count + 1) := by
  have hdistinct : (told ++ n :: late).Nodup := hsplit ▸ g.nodup_dependentsOf name
  exact ((hsplit ▸ h).foldl hdistinct).positive

/-! ### Who gets ready -/

/-- The package that gets ready when a dependent is told: the dependent, if its count comes to
zero. -/
def freedBy (c : Countdown) (name : String) : List String :=
  if (c.pending.get? name).getD 0 - 1 = 0 then [name] else []

/-- The packages that get ready while some dependents are told, in this order. -/
def freed (g : DependencyGraph) (c : Countdown) : List String → List String
  | [] => []
  | n :: late => freedBy c n ++ g.freed (g.countDown c n) late

/-- The packages that get ready in a step. -/
def freedInStep (g : DependencyGraph) (c : Countdown) : List String :=
  match c.ready.entries with
  | [] => []
  | (place, name) :: _ => g.freed (c.install place name) (g.dependentsOf name)

/-- The packages that got ready at the start and in some steps, in this order, with one entry for
each time. -/
def freedAfter (g : DependencyGraph) : Nat → List String
  | 0 => g.names.filter fun n => (g.dependenciesOf n).isEmpty
  | steps + 1 => g.freedAfter steps ++ g.freedInStep (g.countdownAfter steps)

/-- Each package got ready at most once, and those that did are installed or ready. -/
structure Frees (c : Countdown) (log : List String) : Prop where
  distinct : log.Nodup
  mem_iff : ∀ n, n ∈ log ↔ n ∈ c.order ∨ ∃ place, (place, n) ∈ c.ready.entries

theorem frees_start (g : DependencyGraph) : Frees g.countdownStart (g.freedAfter 0) where
  distinct := g.nodup_names.filter _
  mem_iff n := by
    have horder : g.countdownStart.order = [] := rfl
    have hempty : g.outstanding [] n = g.dependenciesOf n := by simp [outstanding, without]
    have hready : (∃ place, (place, n) ∈ g.countdownStart.ready.entries) ↔
        n ∈ g.names ∧ g.dependenciesOf n = [] := by
      simp only [g.counting_start.ready, horder, hempty, List.not_mem_nil, not_false_eq_true,
        true_and, and_true, exists_eq_left]
    rw [hready, freedAfter, List.mem_filter, List.isEmpty_iff, horder]
    exact (or_iff_right List.not_mem_nil).symm

/-- A package that is installed was ready, and the others that were ready stay so. -/
theorem Frees.install (h : Frees c log) (hcounting : g.Counting c [])
    (hentries : c.ready.entries = (place, name) :: rest) : Frees (c.install place name) log where
  distinct := h.distinct
  mem_iff n := by
    have hname : (place, name) ∈ c.ready.entries := by
      rw [hentries]
      exact List.mem_cons_self
    have hplace : ∀ p m, (p, m) ∈ c.ready.entries → (p = place ↔ m = name) := by
      intro p m hm
      obtain ⟨rfl, -⟩ := (hcounting.ready _ _).mp hname
      obtain ⟨rfl, hknown, -⟩ := (hcounting.ready _ _).mp hm
      exact ⟨position_inj hknown, congrArg _⟩
    simp only [h.mem_iff, Countdown.install, List.mem_append, List.mem_singleton,
      SortedMap.mem_entries_erase]
    constructor
    · rintro (hold | ⟨p, hp⟩)
      · exact .inl (.inl hold)
      · by_cases hn : n = name
        · exact .inl (.inr hn)
        · exact .inr ⟨p, hp, fun heq => hn ((hplace p n hp).mp heq)⟩
    · rintro ((hold | rfl) | ⟨p, hp, -⟩)
      · exact .inl hold
      · exact .inr ⟨place, hname⟩
      · exact .inr ⟨p, hp⟩

/-- A dependent that is told gets ready for the first time, if it does: it was neither installed
nor ready while it waited to be told. -/
theorem Frees.countDown (h : Frees c log) (hcounting : g.Counting c (n :: late)) :
    Frees (g.countDown c n) (log ++ freedBy c n) := by
  have hnew : n ∉ log := by
    rw [h.mem_iff]
    rintro (hold | ⟨place, hready⟩)
    · exact (hcounting.late_known n List.mem_cons_self).2 hold
    · exact ((hcounting.ready _ _).mp hready).2.2.2.2 List.mem_cons_self
  have hwaiting : ∀ place, (place, n) ∉ c.ready.entries := fun place hready =>
    hnew ((h.mem_iff n).mpr (.inr ⟨place, hready⟩))
  unfold freedBy DependencyGraph.countDown
  by_cases hdone : (c.pending.get? n).getD 0 - 1 = 0
  · simp only [hdone, if_true]
    exact {
      distinct := List.nodup_append.mpr ⟨h.distinct, List.nodup_singleton n, fun a ha b hb heq =>
        hnew (by rwa [← List.mem_singleton.mp hb, ← heq])⟩
      mem_iff := fun m => by
        simp only [List.mem_append, List.mem_singleton, h.mem_iff, SortedMap.mem_entries_insert,
          Prod.mk.injEq]
        constructor
        · rintro ((hold | ⟨place, hready⟩) | rfl)
          · exact .inl hold
          · obtain ⟨rfl, hm, -⟩ := (hcounting.ready _ _).mp hready
            refine .inr ⟨_, .inr ⟨hready, fun heq => ?_⟩⟩
            exact hwaiting _ (position_inj hm heq ▸ hready)
          · exact .inr ⟨_, .inl ⟨rfl, rfl⟩⟩
        · rintro (hold | ⟨place, ⟨-, rfl⟩ | ⟨hready, -⟩⟩)
          · exact .inl (.inl hold)
          · exact .inr rfl
          · exact .inl (.inr ⟨place, hready⟩) }
  · simp only [hdone, if_false, List.append_nil]
    exact ⟨h.distinct, h.mem_iff⟩

theorem Frees.foldl (h : Frees c log) (hcounting : g.Counting c late) (hdistinct : late.Nodup) :
    Frees (late.foldl g.countDown c) (log ++ g.freed c late) := by
  induction late generalizing c log with
  | nil => rwa [freed, List.append_nil]
  | cons n late ih =>
    obtain ⟨hn, hrest⟩ := List.nodup_cons.mp hdistinct
    rw [freed, ← List.append_assoc]
    exact ih (h.countDown hcounting) (hcounting.countDown hn) hrest

theorem Frees.step (h : Frees c log) (hcounting : g.Counting c []) :
    Frees (g.countdownStep c) (log ++ g.freedInStep c) := by
  unfold freedInStep
  split
  · rename_i hstuck
    rw [List.append_nil, countdownStep, hstuck]
    exact h
  · rename_i place name rest hentries
    rw [countdownStep_eq hentries]
    exact (h.install hcounting hentries).foldl (hcounting.install_head hentries)
      (g.nodup_dependentsOf name)

theorem frees_after (g : DependencyGraph) (steps : Nat) :
    Frees (g.countdownAfter steps) (g.freedAfter steps) := by
  induction steps with
  | zero => exact g.frees_start
  | succ steps ih => exact ih.step (g.counting_after steps)

/-! ### Who is never installed -/

/-- What an installed package depends on, directly or through others, has a lower place. -/
theorem DependenciesFirst.idxOf_lt_of_transGen {d : String} (h : g.DependenciesFirst order)
    (hdistinct : order.Nodup) (hn : n ∈ order) (hpath : Relation.TransGen g.Edge n d) :
    d ∈ order ∧ order.idxOf d < order.idxOf n := by
  induction hpath with
  | single hedge => exact ⟨h.mem hn hedge, h.idxOf_lt hdistinct hn hedge⟩
  | tail _ hedge ih =>
    exact ⟨h.mem ih.1 hedge, (h.idxOf_lt hdistinct ih.1 hedge).trans ih.2⟩

/-- A package that leads to a cycle is in no order that puts dependencies in front. -/
theorem DependenciesFirst.not_mem_of_cycle {m : String} (h : g.DependenciesFirst order)
    (hdistinct : order.Nodup) (hpath : Relation.ReflTransGen g.Edge n m)
    (hcycle : Relation.TransGen g.Edge m m) : n ∉ order := by
  intro hn
  have hm : m ∈ order := by
    rcases Relation.reflTransGen_iff_eq_or_transGen.mp hpath with rfl | hpath
    · exact hn
    · exact (h.idxOf_lt_of_transGen hdistinct hn hpath).1
  exact lt_irrefl _ (h.idxOf_lt_of_transGen hdistinct hm hcycle).2

/-! ### The end of the countdown -/

/-- After as many steps as there are packages nothing is ready, so no step is left out. -/
theorem ready_eq_nil_of_le {steps : Nat} (hsteps : g.packages.length ≤ steps) :
    (g.countdownAfter steps).ready.entries = [] := by
  rcases g.length_order_after steps with hlength | hstuck
  · cases hentries : (g.countdownAfter steps).ready.entries with
    | nil => rfl
    | cons e rest =>
      -- the package in front would be one more than there are
      have hnext := (g.counting_after steps).install_head hentries
      have hle := (hnext.order_distinct.subperm hnext.order_known).length_le
      simp only [Countdown.install, names, List.length_append, List.length_singleton,
        List.length_map, hlength] at hle
      omega
  · exact hstuck

/-- The countdown is exact in every state, on every graph that additions of packages and links can
lead to. Before each step the count of a package is the number of its direct dependencies that are
not installed. In the step the dependents of the installed package are told one by one, and when
the turn of one comes its count is positive. Over all steps, of which there are at most as many as
packages, each package gets ready at most once and is installed at most once; one that lies on a
cycle, or from which a cycle can be reached, is never installed. -/
theorem countdown_exact (g : DependencyGraph) (steps : Nat) :
    (∀ n ∈ g.names, (g.countdownAfter steps).pending.get? n =
      some (g.outstanding (g.countdownAfter steps).order n).length) ∧
    (∀ place name rest, (g.countdownAfter steps).ready.entries = (place, name) :: rest →
      g.countdownAfter (steps + 1) = (g.dependentsOf name).foldl g.countDown
        ((g.countdownAfter steps).install place name) ∧
      ∀ told n late, g.dependentsOf name = told ++ n :: late → ∃ count,
        (told.foldl g.countDown ((g.countdownAfter steps).install place name)).pending.get? n =
          some (count + 1)) ∧
    (g.freedAfter steps).Nodup ∧
    (∀ n, n ∈ g.freedAfter steps ↔ n ∈ (g.countdownAfter steps).order ∨
      ∃ place, (place, n) ∈ (g.countdownAfter steps).ready.entries) ∧
    (g.countdownAfter steps).order.Nodup ∧
    (∀ n m, Relation.ReflTransGen g.Edge n m → Relation.TransGen g.Edge m m →
      n ∉ (g.countdownAfter steps).order) ∧
    (g.packages.length ≤ steps → (g.countdownAfter steps).ready.entries = []) := by
  have hcounting := g.counting_after steps
  have hfrees := g.frees_after steps
  refine ⟨fun n hn => ?_, fun place name rest hentries => ⟨?_, fun told n late hsplit => ?_⟩,
    hfrees.distinct, hfrees.mem_iff, hcounting.order_distinct, fun n m hpath hcycle => ?_,
    ready_eq_nil_of_le⟩
  · rw [hcounting.pending n hn, if_neg List.not_mem_nil, Nat.add_zero]
  · exact countdownStep_eq hentries
  · exact (hcounting.install_head hentries).positive_of_told hsplit
  · exact hcounting.dependencies_first.not_mem_of_cycle hcounting.order_distinct hpath hcycle

end DependencyGraph

end Depsolve
