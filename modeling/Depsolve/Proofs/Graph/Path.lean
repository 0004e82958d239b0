import Depsolve.Graph.Path
import Depsolve.Proofs.Graph.Edge
import Mathlib.Data.List.Chain

/-!
The search for a chain of dependencies is sound and complete.

* `SimpleChain` says what a chain from one package to another is: each name depends on the
  next and none comes twice.
* `Searching` is the invariant of the search. The entries are a tree that grows from the
  source, what is neither entered nor unseen does not exist, and a package that was looked
  at has all of its dependencies entered.
* `simpleChain_of_path?` and `not_reaches_of_path?` read the two answers off the invariant.
-/

namespace Depsolve.DependencyGraph

/-- A way along dependencies from one package to another that meets none twice. -/
structure SimpleChain (g : DependencyGraph) (source target : String) (chain : List String) :
    Prop where
  first : chain.head? = some source
  last : chain.getLast? = some target
  linked : chain.IsChain g.Edge
  distinct : chain.Nodup

variable {g : DependencyGraph} {source target goal current name : String}
  {unseen queue rest : List String} {entries : List (String × String)}

/-- In a chain every name but the last is followed by another. -/
theorem exists_next_of_isChain {R : String → String → Prop} {names : List String} {last : String}
    (h : (names ++ [last]).IsChain R) : ∀ n ∈ names, ∃ m, R n m := by
  induction names with
  | nil => exact fun n hn => absurd hn List.not_mem_nil
  | cons name names ih =>
    have hnext : ∃ m, R name m := by
      cases names with
      | nil => exact ⟨_, (List.isChain_cons_cons.mp h).1⟩
      | cons => exact ⟨_, (List.isChain_cons_cons.mp h).1⟩
    intro n hn
    rcases List.mem_cons.mp hn with rfl | hn
    · exact hnext
    · exact ih h.tail n hn

theorem simpleChain_singleton (g : DependencyGraph) (name : String) :
    g.SimpleChain name name [name] :=
  ⟨rfl, rfl, .singleton _, by simp⟩

/-- A chain goes on to a dependency that it has not met. -/
theorem SimpleChain.snoc {chain : List String} (h : g.SimpleChain source current chain)
    (hedge : g.Edge current name) (hnew : name ∉ chain) :
    g.SimpleChain source name (chain ++ [name]) where
  first := by
    rw [List.head?_append, h.first]
    rfl
  last := by simp
  linked := by
    refine List.isChain_append.mpr ⟨h.linked, .singleton _, fun x hx y hy => ?_⟩
    rw [h.last] at hx
    cases hx
    cases hy
    exact hedge
  distinct := by
    refine List.nodup_append.mpr ⟨h.distinct, by simp, fun x hx y hy heq => hnew ?_⟩
    rw [List.mem_singleton] at hy
    rwa [← hy, ← heq]

/-- Along a chain one package leads to the other. -/
theorem SimpleChain.reaches {chain : List String} (h : g.SimpleChain source target chain) :
    Relation.ReflTransGen g.Edge source target := by
  have hne : chain ≠ [] := fun hnil => by simpa [hnil] using h.first
  have hfirst : chain.head hne = source :=
    Option.some.inj ((List.head?_eq_some_head hne).symm.trans h.first)
  have hlast : chain.getLast hne = target :=
    Option.some.inj ((List.getLast?_eq_some_getLast hne).symm.trans h.last)
  have hreach := List.relationReflTransGen_of_exists_isChain chain h.linked hne
  rwa [hfirst, hlast] at hreach

/-- From a package without dependencies no chain leads to another. -/
theorem SimpleChain.eq_of_no_edge {chain : List String} (h : g.SimpleChain source target chain)
    (hsource : ∀ n, ¬ g.Edge source n) : source = target := by
  obtain ⟨hfirst, hlast, hlinked, -⟩ := h
  match chain with
  | [] => cases hfirst
  | [name] =>
    cases hfirst
    cases hlast
    rfl
  | first :: second :: _ =>
    cases hfirst
    exact absurd (List.isChain_cons_cons.mp hlinked).1 (hsource second)

/-! ### What the entries record -/

/-- The packages that a search has entered. -/
def entered (source : String) (entries : List (String × String)) : List String :=
  source :: entries.map (·.1)

/-- The entries of a search: each tells of a package not entered before that an entered one
depends on it. -/
inductive Recorded (g : DependencyGraph) (source : String) : List (String × String) → Prop where
  | start : Recorded g source []
  | enter {reached origin : String} {entries : List (String × String)} :
      Recorded g source entries → origin ∈ entered source entries → g.Edge origin reached →
      reached ∉ entered source entries → Recorded g source ((reached, origin) :: entries)

theorem mem_entered_append {fresh : List String} :
    name ∈ entered source (fresh.reverse.map (·, current) ++ entries) ↔
      name ∈ entered source entries ∨ name ∈ fresh := by
  simp only [entered, List.map_append, List.map_map, Function.comp_def, List.map_id',
    List.mem_cons, List.mem_append, List.mem_reverse]
  tauto

/-- New dependencies of one entered package can all be entered from it. -/
theorem Recorded.enterAll (h : Recorded g source entries) (hcurrent : current ∈ entered source entries)
    {fresh : List String} (hfresh : ∀ n ∈ fresh, g.Edge current n ∧ n ∉ entered source entries)
    (hdistinct : fresh.Nodup) :
    Recorded g source (fresh.reverse.map (·, current) ++ entries) := by
  induction fresh using List.reverseRecOn with
  | nil => exact h
  | append_singleton ns n ih =>
    obtain ⟨hns, -, hapart⟩ := List.nodup_append.mp hdistinct
    have hn := hfresh n (by simp)
    have hnew : n ∉ ns := fun hmem => hapart n hmem n (by simp) rfl
    rw [List.reverse_append, List.reverse_singleton, List.map_append, List.append_assoc]
    refine .enter (ih (fun m hm => hfresh m (by simp [hm])) hns) ?_ hn.1 ?_
    · exact mem_entered_append.mpr (.inl hcurrent)
    · intro hmem
      exact (mem_entered_append.mp hmem).elim hn.2 hnew

/-- The way back from an entered package leads to the source, through entered packages. -/
theorem Recorded.traceBack (h : Recorded g source entries) (hname : name ∈ entered source entries)
    (chain : List String) :
    ∃ way, DependencyGraph.traceBack entries name chain = way ++ chain ∧
      g.SimpleChain source name way ∧ ∀ n ∈ way, n ∈ entered source entries := by
  induction h generalizing name chain with
  | start =>
    have hsource : name = source := by simpa [entered] using hname
    subst hsource
    exact ⟨[name], rfl, simpleChain_singleton g name, by simp [entered]⟩
  | @enter reached origin entries _ horigin hedge hnew ih =>
    rw [DependencyGraph.traceBack]
    by_cases heq : reached = name
    · subst heq
      obtain ⟨way, htrace, hway, hsub⟩ := ih horigin (reached :: chain)
      refine ⟨way ++ [reached], ?_, hway.snoc hedge fun hmem => hnew (hsub _ hmem), ?_⟩
      · rw [if_pos rfl, htrace, List.append_assoc, List.singleton_append]
      · intro n hn
        rcases List.mem_append.mp hn with hn | hn
        · exact List.mem_cons.mpr ((List.mem_cons.mp (hsub n hn)).imp_right (List.mem_cons_of_mem _))
        · rw [List.mem_singleton.mp hn]
          exact hname
    · rw [if_neg heq]
      have hold : name ∈ entered source entries := by
        simp only [entered, List.map_cons, List.mem_cons] at hname ⊢
        exact hname.imp_right fun h => h.resolve_left fun e => heq e.symm
      obtain ⟨way, htrace, hway, hsub⟩ := ih hold chain
      refine ⟨way, htrace, hway, fun n hn => ?_⟩
      exact List.mem_cons.mpr ((List.mem_cons.mp (hsub n hn)).imp_right (List.mem_cons_of_mem _))

/-! ### The invariant of the search -/

/-- What holds whenever the search looks at its queue. -/
structure Searching (g : DependencyGraph) (source goal : String) (unseen queue : List String)
    (entries : List (String × String)) : Prop where
  recorded : Recorded g source entries
  unseen_iff : ∀ n, n ∈ unseen ↔ n ∈ g.names ∧ n ∉ entered source entries
  queued : ∀ n ∈ queue, n ∈ entered source entries
  closed : ∀ n ∈ entered source entries, n ∉ queue →
    n ≠ goal ∧ ∀ m, g.Edge n m → m ∈ entered source entries

theorem searching_start (g : DependencyGraph) (source goal : String) :
    Searching g source goal (without [source] g.names) [source] [] where
  recorded := .start
  unseen_iff n := by simp [without, entered]
  queued n hn := by simpa [entered] using hn
  closed n hn hqueue := absurd (by simpa [entered] using hn) hqueue

theorem mem_fresh : name ∈ g.fresh unseen current ↔ g.Edge current name ∧ name ∈ unseen := by
  simp [fresh, mem_dependenciesOf]

/-- Looking at a package that is not the goal keeps the invariant. -/
theorem Searching.step (h : Searching g source goal unseen (current :: rest) entries)
    (hgoal : current ≠ goal) :
    Searching g source goal (without (g.fresh unseen current) unseen)
      (rest ++ g.fresh unseen current)
      ((g.fresh unseen current).reverse.map (·, current) ++ entries) where
  recorded := by
    refine h.recorded.enterAll (h.queued current (by simp)) (fun n hn => ?_)
      ((g.nodup_dependenciesOf current).filter _)
    obtain ⟨hedge, hn⟩ := mem_fresh.mp hn
    exact ⟨hedge, ((h.unseen_iff n).mp hn).2⟩
  unseen_iff n := by
    rw [without, List.mem_filter, h.unseen_iff, mem_entered_append]
    simp [and_assoc]
  queued n hn := by
    rw [mem_entered_append]
    exact (List.mem_append.mp hn).imp_left fun hrest => h.queued n (List.mem_cons_of_mem _ hrest)
  closed n hn hqueue := by
    rw [List.mem_append, not_or] at hqueue
    have hold : n ∈ entered source entries := (mem_entered_append.mp hn).resolve_right hqueue.2
    by_cases hcurrent : n = current
    · subst hcurrent
      refine ⟨hgoal, fun m hedge => mem_entered_append.mpr ?_⟩
      by_cases hm : m ∈ entered source entries
      · exact .inl hm
      · exact .inr (mem_fresh.mpr ⟨hedge, (h.unseen_iff m).mpr ⟨hedge.dependency_mem, hm⟩⟩)
    · have hclosed := h.closed n hold (by simp [hcurrent, hqueue.1])
      exact ⟨hclosed.1, fun m hedge => mem_entered_append.mpr (.inl (hclosed.2 m hedge))⟩

/-- With nothing left to look at, the entered packages are all that the source reaches. -/
theorem Searching.not_reaches (h : Searching g source goal unseen [] entries) :
    ¬ Relation.ReflTransGen g.Edge source goal := by
  intro hreach
  have hentered : ∀ n, Relation.ReflTransGen g.Edge source n → n ∈ entered source entries := by
    intro n hn
    induction hn with
    | refl => exact List.mem_cons_self
    | tail _ hedge ih => exact (h.closed _ ih (by simp)).2 _ hedge
  exact (h.closed goal (hentered goal hreach) (by simp)).1 rfl

/-- The search finds a chain to the goal, or there is none. -/
theorem Searching.search (h : Searching g source goal unseen queue entries) :
    (∃ chain, g.search goal unseen queue entries = some chain ∧
      g.SimpleChain source goal chain) ∨
    (g.search goal unseen queue entries = none ∧
      ¬ Relation.ReflTransGen g.Edge source goal) := by
  fun_induction DependencyGraph.search g goal unseen queue entries with
  | case1 => exact .inr ⟨rfl, h.not_reaches⟩
  | case2 unseen entries rest =>
    obtain ⟨way, htrace, hway, -⟩ := h.recorded.traceBack (h.queued goal (by simp)) []
    exact .inl ⟨_, rfl, by simpa [htrace] using hway⟩
  | case3 unseen entries current rest hgoal _ ih => exact ih (h.step hgoal)

/-! ### The answers of the search -/

theorem path?_of_known (hsource : source ∈ g.names) (htarget : target ∈ g.names) :
    g.path? source target = g.search target (without [source] g.names) [source] [] := by
  rw [path?, if_pos ⟨hsource, htarget⟩]

/-- A chain that is found is one. -/
theorem simpleChain_of_path? {chain : List String} (h : g.path? source target = some chain) :
    g.SimpleChain source target chain := by
  have hknown : source ∈ g.names ∧ target ∈ g.names := by
    by_contra hunknown
    rw [path?, if_neg hunknown] at h
    cases h
  rw [path?_of_known hknown.1 hknown.2] at h
  rcases (searching_start g source target).search with ⟨chain', hsome, hchain⟩ | ⟨hnone, _⟩
  · rw [h] at hsome
    cases hsome
    exact hchain
  · rw [h] at hnone
    cases hnone

/-- Where no chain is found between two packages, none leads from one to the other. -/
theorem not_reaches_of_path? (hsource : source ∈ g.names) (htarget : target ∈ g.names)
    (h : g.path? source target = none) : ¬ Relation.ReflTransGen g.Edge source target := by
  rw [path?_of_known hsource htarget] at h
  rcases (searching_start g source target).search with ⟨_, hsome, _⟩ | ⟨_, hnot⟩
  · rw [h] at hsome
    cases hsome
  · exact hnot

/-- In a graph without cycles no chain leads back along a link. -/
theorem path?_of_edge {a b : String} (hacyclic : g.Acyclic) (h : g.Edge a b) :
    g.path? b a = none := by
  cases hpath : g.path? b a with
  | none => rfl
  | some chain =>
    have hback := (simpleChain_of_path? hpath).reaches
    exact absurd (Relation.TransGen.head' h hback) (hacyclic a)

end Depsolve.DependencyGraph
