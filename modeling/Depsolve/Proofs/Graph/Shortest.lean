import Depsolve.Proofs.Graph.Path
import Mathlib.Data.List.Perm.Subperm

/-!
The chain that the search finds is a shortest one, and the search comes to its end.

* `Layered` is what `Searching` leaves out of the invariant: the queue goes up in `depth`, the
  entered packages reach at most one layer further than any of those that wait, and a package
  that was looked at is at most one layer above its dependencies. `Layered.depth_lt_length` says
  that the way back from a package at the front of the queue is as short as any chain to it.
* `Explores` is the search as a loop over its queue, the packages seen and the map of the
  packages they were reached from, and `Retraces` the loop that follows this map back. Neither has
  a bound; `Searching.explores` says that both come to an end, with the answer of `search`.
* `path?_exact` puts the parts together.
-/

namespace Depsolve.DependencyGraph

variable {g : DependencyGraph} {source target goal current name reached origin : String}
  {unseen queue rest seen fresh chain way : List String} {entries : List (String × String)}

/-- A way along dependencies from one package to another; it may meet a package more than once. -/
structure Chain (g : DependencyGraph) (source target : String) (chain : List String) : Prop where
  first : chain.head? = some source
  last : chain.getLast? = some target
  linked : chain.IsChain g.Edge

/-! ### Depths -/

/-- The number of steps back from an entered package to the source. -/
def depth : List (String × String) → String → Nat
  | [], _ => 0
  | (reached, origin) :: entries, name =>
    if reached = name then depth entries origin + 1 else depth entries name

theorem length_traceBack (entries : List (String × String)) (name : String)
    (chain : List String) :
    (traceBack entries name chain).length = depth entries name + 1 + chain.length := by
  induction entries generalizing name chain with
  | nil => simp [traceBack, depth, Nat.add_comm]
  | cons entry entries ih =>
    rw [traceBack, depth]
    split
    · rw [ih, List.length_cons]
      omega
    · exact ih name chain

/-- Packages that are entered together are one layer below the package they are entered from. -/
theorem depth_append (hcurrent : current ∉ fresh) :
    depth (fresh.map (·, current) ++ entries) name =
      if name ∈ fresh then depth entries current + 1 else depth entries name := by
  induction fresh generalizing name with
  | nil => simp
  | cons n fresh ih =>
    obtain ⟨hne, hcurrent⟩ := not_or.mp (mt List.mem_cons.mpr hcurrent)
    rw [List.map_cons, List.cons_append, depth, ih hcurrent, ih hcurrent, if_neg hcurrent]
    by_cases hname : n = name
    · subst hname
      rw [if_pos rfl, if_pos List.mem_cons_self]
    · rw [if_neg hname]
      simp only [List.mem_cons, Ne.symm hname, false_or]

theorem Recorded.depth_source (h : Recorded g source entries) : depth entries source = 0 := by
  induction h with
  | start => rfl
  | enter _ _ _ hnew ih =>
    have hne := List.ne_of_not_mem_cons hnew
    rw [depth, if_neg hne, ih]

/-! ### The layers of the search -/

/-- What holds of the depths whenever the search looks at its queue. -/
structure Layered (g : DependencyGraph) (source goal : String) (unseen queue : List String)
    (entries : List (String × String)) : Prop extends
    g.Searching source goal unseen queue entries where
  sorted : queue.Pairwise fun a b => depth entries a ≤ depth entries b
  span : ∀ a ∈ queue, ∀ n ∈ entered source entries, depth entries n ≤ depth entries a + 1
  near : ∀ n ∈ entered source entries, n ∉ queue → ∀ m, g.Edge n m →
    depth entries m ≤ depth entries n + 1

theorem layered_start (g : DependencyGraph) (source goal : String) :
    g.Layered source goal (without [source] g.names) [source] [] where
  toSearching := g.searching_start source goal
  sorted := List.pairwise_singleton _ _
  span _ _ _ _ := Nat.zero_le _
  near _ _ _ _ _ := Nat.zero_le _

/-- Looking at a package that is not the goal keeps the layers. -/
theorem Layered.step (h : g.Layered source goal unseen (current :: rest) entries)
    (hgoal : current ≠ goal) :
    g.Layered source goal (without (g.fresh unseen current) unseen)
      (rest ++ g.fresh unseen current)
      ((g.fresh unseen current).reverse.map (·, current) ++ entries) := by
  have hsearching := h.toSearching.step hgoal
  have hcurrent : current ∈ entered source entries := h.queued current List.mem_cons_self
  have hnew : ∀ n ∈ g.fresh unseen current, n ∉ entered source entries := fun n hn =>
    ((h.unseen_iff n).mp (mem_fresh.mp hn).2).2
  have hdepth : ∀ n, depth ((g.fresh unseen current).reverse.map (·, current) ++ entries) n =
      if n ∈ g.fresh unseen current then depth entries current + 1 else depth entries n := by
    intro n
    have hapart : current ∉ (g.fresh unseen current).reverse := fun hmem =>
      hnew current (List.mem_reverse.mp hmem) hcurrent
    simp only [depth_append hapart, List.mem_reverse]
  have hold : ∀ n ∈ entered source entries,
      depth ((g.fresh unseen current).reverse.map (·, current) ++ entries) n =
        depth entries n := fun n hn => by rw [hdepth, if_neg fun hmem => hnew n hmem hn]
  have hbelow : ∀ n ∈ g.fresh unseen current,
      depth ((g.fresh unseen current).reverse.map (·, current) ++ entries) n =
        depth entries current + 1 := fun n hn => by rw [hdepth, if_pos hn]
  have hrest : ∀ n ∈ rest, n ∈ entered source entries := fun n hn =>
    h.queued n (List.mem_cons_of_mem _ hn)
  obtain ⟨hfront, hsorted⟩ := List.pairwise_cons.mp h.sorted
  have hspan := h.span current List.mem_cons_self
  -- whatever waits now lies at least as deep as the package that was looked at
  have hwaits : ∀ a ∈ rest ++ g.fresh unseen current, depth entries current ≤
      depth ((g.fresh unseen current).reverse.map (·, current) ++ entries) a := by
    intro a ha
    rcases List.mem_append.mp ha with ha | ha
    · rw [hold a (hrest a ha)]
      exact hfront a ha
    · rw [hbelow a ha]
      exact Nat.le_succ _
  refine { hsearching with sorted := ?_, span := ?_, near := ?_ }
  · refine List.pairwise_append.mpr ⟨?_, ?_, ?_⟩
    · refine hsorted.imp_of_mem fun {a b} ha hb hle => ?_
      rwa [hold a (hrest a ha), hold b (hrest b hb)]
    · refine List.pairwise_of_forall_mem_list fun a ha b hb => ?_
      rw [hbelow a ha, hbelow b hb]
    · intro a ha b hb
      rw [hold a (hrest a ha), hbelow b hb]
      exact hspan a (hrest a ha)
  · intro a ha n hn
    refine le_trans ?_ (Nat.succ_le_succ (hwaits a ha))
    rcases mem_entered_append.mp hn with hn | hn
    · rw [hold n hn]
      exact hspan n hn
    · exact (hbelow n hn).le
  · intro n hn hqueue m hedge
    rw [List.mem_append, not_or] at hqueue
    have hn : n ∈ entered source entries := (mem_entered_append.mp hn).resolve_right hqueue.2
    rw [hold n hn]
    by_cases hm : m ∈ g.fresh unseen current
    · rw [hbelow m hm]
      -- a package that was looked at before has no fresh dependency
      have hsame : n = current := by
        by_contra hne
        exact hnew m hm ((h.closed n hn (by simp [hne, hqueue.1])).2 m hedge)
      rw [hsame]
    · rw [hdepth, if_neg hm]
      by_cases hsame : n = current
      · subst hsame
        refine hspan m ?_
        by_contra hunknown
        exact hm (mem_fresh.mpr ⟨hedge, (h.unseen_iff m).mpr ⟨hedge.dependency_mem, hunknown⟩⟩)
      · exact h.near n hn (by simp [hsame, hqueue.1]) m hedge

/-- A chain from the source ends in an entered package that lies no deeper than the chain is long,
or it leads through one that still waits. -/
theorem Layered.entered_or_waits (h : g.Layered source goal unseen queue entries)
    (hchain : g.Chain source name chain) :
    (name ∈ entered source entries ∧ depth entries name < chain.length) ∨
      ∃ a ∈ queue, depth entries a < chain.length := by
  induction chain using List.reverseRecOn generalizing name with
  | nil => cases hchain.first
  | append_singleton front last ih =>
    obtain ⟨hfirst, hlast, hlinked⟩ := hchain
    obtain rfl : last = name := by simpa using hlast
    rw [List.length_append, List.length_singleton]
    obtain ⟨hfrontLinked, -, hnext⟩ := List.isChain_append.mp hlinked
    cases hend : front.getLast? with
    | none =>
      obtain rfl := List.getLast?_eq_none_iff.mp hend
      obtain rfl : last = source := by simpa using hfirst
      refine .inl ⟨List.mem_cons_self, ?_⟩
      rw [h.recorded.depth_source]
      exact Nat.succ_pos _
    | some before =>
      have hne : front ≠ [] := by
        rintro rfl
        cases hend
      have hfront : g.Chain source before front :=
        ⟨by rwa [List.head?_append_of_ne_nil _ hne] at hfirst, hend, hfrontLinked⟩
      have hedge : g.Edge before last := hnext before hend last rfl
      rcases ih hfront with ⟨hentered, hlt⟩ | ⟨a, ha, hlt⟩
      · by_cases hqueue : before ∈ queue
        · exact .inr ⟨before, hqueue, Nat.lt_succ_of_lt hlt⟩
        · refine .inl ⟨(h.closed before hentered hqueue).2 last hedge, ?_⟩
          have hnear := h.near before hentered hqueue last hedge
          omega
      · exact .inr ⟨a, ha, Nat.lt_succ_of_lt hlt⟩

/-- No chain to the package that is looked at next is shorter than the way back from it. -/
theorem Layered.depth_lt_length (h : g.Layered source goal unseen (current :: rest) entries)
    (hchain : g.Chain source current chain) : depth entries current < chain.length := by
  rcases h.entered_or_waits hchain with ⟨-, hlt⟩ | ⟨a, ha, hlt⟩
  · exact hlt
  · rcases List.mem_cons.mp ha with rfl | hrest
    · exact hlt
    · exact lt_of_le_of_lt ((List.pairwise_cons.mp h.sorted).1 a hrest) hlt

/-- The chain that the search comes to is no longer than any other. -/
theorem Layered.search (h : g.Layered source goal unseen queue entries)
    (hsome : g.search goal unseen queue entries = some way) (hchain : g.Chain source goal chain) :
    way.length ≤ chain.length := by
  fun_induction DependencyGraph.search g goal unseen queue entries with
  | case1 => cases hsome
  | case2 unseen entries rest =>
    obtain rfl := Option.some.inj hsome
    rw [length_traceBack]
    exact h.depth_lt_length hchain
  | case3 unseen entries current rest hgoal _ ih => exact ih (h.step hgoal) hsome

theorem length_le_of_path? (h : g.path? source target = some way)
    (hchain : g.Chain source target chain) : way.length ≤ chain.length := by
  have hknown : source ∈ g.names ∧ target ∈ g.names := by
    by_contra hunknown
    rw [path?, if_neg hunknown] at h
    cases h
  rw [path?_of_known hknown.1 hknown.2] at h
  exact (g.layered_start source target).search h hchain

/-- There is no answer just where a name is unknown or the one package does not lead to the
other. -/
theorem path?_eq_none_iff :
    g.path? source target = none ↔
      source ∉ g.names ∨ target ∉ g.names ∨ ¬ Relation.ReflTransGen g.Edge source target := by
  constructor
  · intro h
    by_cases hsource : source ∈ g.names
    · by_cases htarget : target ∈ g.names
      · exact .inr (.inr (not_reaches_of_path? hsource htarget h))
      · exact .inr (.inl htarget)
    · exact .inl hsource
  · intro h
    cases hpath : g.path? source target with
    | none => rfl
    | some chain =>
      have hchain := simpleChain_of_path? hpath
      rcases h with hsource | htarget | hreach
      · rw [path?, if_neg fun hknown => hsource hknown.1] at hpath
        cases hpath
      · rw [path?, if_neg fun hknown => htarget hknown.2] at hpath
        cases hpath
      · exact absurd hchain.reaches hreach

/-! ### The search as a loop -/

/-- What the loop of the search keeps: the packages to look at, those seen so far, and for each of
them but the source the package it was reached from. -/
structure Frontier where
  queue : List String
  seen : List String
  previous : List (String × String)

namespace Frontier

/-- Before anything is looked at. -/
def start (source : String) : Frontier := ⟨[source], [source], []⟩

/-- A dependency of the package at hand is met. -/
def meet (current : String) (f : Frontier) (next : String) : Frontier :=
  if next ∈ f.seen then f
  else ⟨f.queue ++ [next], next :: f.seen, (next, current) :: f.previous⟩

/-- All dependencies of a package that is taken off the queue are met. -/
def look (g : DependencyGraph) (current : String) (f : Frontier) : Frontier :=
  (g.dependenciesOf current).foldl (meet current) f

/-- Of different packages that are met the new ones are entered, each behind the one before. -/
theorem foldl_meet {names : List String} (hdistinct : names.Nodup) (current : String)
    (f : Frontier) :
    names.foldl (meet current) f =
      ⟨f.queue ++ names.filter (· ∉ f.seen), (names.filter (· ∉ f.seen)).reverse ++ f.seen,
        (names.filter (· ∉ f.seen)).reverse.map (·, current) ++ f.previous⟩ := by
  induction names generalizing f with
  | nil => simp
  | cons next names ih =>
    obtain ⟨hnext, hdistinct⟩ := List.nodup_cons.mp hdistinct
    rw [List.foldl_cons, ih hdistinct, meet]
    by_cases hseen : next ∈ f.seen
    · simp [hseen]
    · have hrest : names.filter (· ∉ next :: f.seen) = names.filter (· ∉ f.seen) := by
        refine List.filter_congr fun n hn => ?_
        have hne : n ≠ next := fun heq => hnext (heq ▸ hn)
        simp [hne]
      simp only [if_neg hseen, hrest]
      simp [hseen]

end Frontier

/-- The loop that follows the map back from a package for as long as it has an entry; the packages
that it comes to go in front of the chain. -/
inductive Retraces (previous : List (String × String)) :
    String → List String → List String → Prop where
  | stop {name : String} {chain : List String} (hlookup : previous.lookup name = none) :
      Retraces previous name chain (name :: chain)
  | back {name origin : String} {chain way : List String}
      (hlookup : previous.lookup name = some origin)
      (hrest : Retraces previous origin (name :: chain) way) : Retraces previous name chain way

/-- The loop that takes packages off the queue until it comes to the goal or the queue is empty.
It looks at that many packages and comes to that answer. -/
inductive Explores (g : DependencyGraph) (goal : String) :
    Frontier → Nat → Option (List String) → Prop where
  | exhausted {seen : List String} {previous : List (String × String)} :
      Explores g goal ⟨[], seen, previous⟩ 0 none
  | found {rest seen way : List String} {previous : List (String × String)}
      (hway : Retraces previous goal [] way) :
      Explores g goal ⟨goal :: rest, seen, previous⟩ 1 (some way)
  | look {current : String} {rest seen : List String} {previous : List (String × String)}
      {looks : Nat} {answer : Option (List String)} (hgoal : current ≠ goal)
      (hrest : Explores g goal (Frontier.look g current ⟨rest, seen, previous⟩) looks answer) :
      Explores g goal ⟨current :: rest, seen, previous⟩ (looks + 1) answer

/-- The way back comes to one chain only. -/
theorem Retraces.unique {other : List String} (h : Retraces entries name chain way)
    (hother : Retraces entries name chain other) : way = other := by
  induction h with
  | stop hlookup =>
    cases hother with
    | stop => rfl
    | back hother => simp [hlookup] at hother
  | back hlookup _ ih =>
    cases hother with
    | stop hother => simp [hlookup] at hother
    | back hother hrest =>
      rw [hlookup] at hother
      cases hother
      exact ih hrest

/-- The loop comes to one answer only. -/
theorem Explores.unique {f : Frontier} {looks looks' : Nat} {answer answer' : Option (List String)}
    (h : g.Explores goal f looks answer) (hother : g.Explores goal f looks' answer') :
    answer = answer' := by
  induction h generalizing looks' with
  | exhausted =>
    cases hother
    rfl
  | found hway =>
    cases hother with
    | found hother => rw [hway.unique hother]
    | look hgoal => exact absurd rfl hgoal
  | look hgoal _ ih =>
    cases hother with
    | found => exact absurd rfl hgoal
    | look _ hrest => exact ih hrest

/-! ### The loops come to their ends -/

theorem Recorded.origin_mem (h : Recorded g source entries)
    (hlookup : entries.lookup name = some origin) : origin ∈ entered source entries := by
  induction h with
  | start => cases hlookup
  | enter _ horigin _ _ ih =>
    rw [List.lookup_cons] at hlookup
    split at hlookup
    · cases hlookup
      exact List.mem_cons.mpr ((List.mem_cons.mp horigin).imp_right (List.mem_cons_of_mem _))
    · exact List.mem_cons.mpr ((List.mem_cons.mp (ih hlookup)).imp_right (List.mem_cons_of_mem _))

/-- A package that is entered later is not on the way back from one entered before. -/
theorem Retraces.enter (h : Retraces entries name chain way) (hrecorded : Recorded g source entries)
    (hname : name ∈ entered source entries) (hnew : reached ∉ entered source entries) :
    Retraces ((reached, origin) :: entries) name chain way := by
  have hlater : ∀ n ∈ entered source entries,
      ((reached, origin) :: entries).lookup n = entries.lookup n := by
    intro n hn
    have hne : n ≠ reached := fun heq => hnew (heq ▸ hn)
    rw [List.lookup_cons, beq_false_of_ne hne]
  induction h with
  | stop hlookup => exact .stop ((hlater _ hname).trans hlookup)
  | back hlookup _ ih =>
    exact .back ((hlater _ hname).trans hlookup) (ih (hrecorded.origin_mem hlookup))

/-- The loop that follows the map of a search back comes to the way that the entries spell. -/
theorem Recorded.retraces (h : Recorded g source entries) (hname : name ∈ entered source entries)
    (chain : List String) :
    Retraces entries name chain (DependencyGraph.traceBack entries name chain) := by
  induction h generalizing name chain with
  | start => exact .stop rfl
  | @enter reached origin entries hrecorded horigin _ hnew ih =>
    rw [DependencyGraph.traceBack]
    split
    · rename_i heq
      subst heq
      refine .back (List.lookup_cons_self) ?_
      exact (ih horigin (reached :: chain)).enter hrecorded horigin hnew
    · rename_i hne
      have hold : name ∈ entered source entries := by
        simp only [entered, List.map_cons, List.mem_cons] at hname ⊢
        exact hname.imp_right fun h => h.resolve_left fun heq => hne heq.symm
      exact (ih hold chain).enter hrecorded hold hnew

/-- Looking at a package enters what is fresh of it. -/
theorem Searching.look (h : g.Searching source goal unseen (current :: rest) entries)
    (hseen : ∀ n, n ∈ seen ↔ n ∈ entered source entries) :
    Frontier.look g current ⟨rest, seen, entries⟩ =
      ⟨rest ++ g.fresh unseen current, (g.fresh unseen current).reverse ++ seen,
        (g.fresh unseen current).reverse.map (·, current) ++ entries⟩ := by
  have hfresh : (g.dependenciesOf current).filter (· ∉ seen) = g.fresh unseen current := by
    refine List.filter_congr fun n hn => ?_
    have hknown := (mem_dependenciesOf.mp hn).dependency_mem
    rw [decide_eq_decide, hseen, h.unseen_iff]
    exact ⟨fun hnew => ⟨hknown, hnew⟩, And.right⟩
  rw [Frontier.look, Frontier.foldl_meet (g.nodup_dependenciesOf current)]
  simp only [hfresh]

/-- What is fresh was not entered, so it leaves as many packages fewer to be entered. -/
theorem length_fresh_add_le (g : DependencyGraph) (unseen : List String) (current : String) :
    (g.fresh unseen current).length + (without (g.fresh unseen current) unseen).length ≤
      unseen.length := by
  have hdistinct : (g.fresh unseen current).Nodup := (g.nodup_dependenciesOf current).filter _
  have hsub : g.fresh unseen current ⊆ unseen.filter (· ∈ g.fresh unseen current) := fun n hn =>
    List.mem_filter.mpr ⟨(mem_fresh.mp hn).2, decide_eq_true hn⟩
  have hle := (hdistinct.subperm hsub).length_le
  have hparts := List.length_eq_length_filter_add (l := unseen) (· ∈ g.fresh unseen current)
  simp only [without, decide_not]
  omega

/-- The loop comes to the answer of the search, and it looks at no package twice. -/
theorem Searching.explores (h : g.Searching source goal unseen queue entries)
    (hseen : ∀ n, n ∈ seen ↔ n ∈ entered source entries) :
    ∃ looks ≤ queue.length + unseen.length,
      g.Explores goal ⟨queue, seen, entries⟩ looks (g.search goal unseen queue entries) := by
  fun_induction DependencyGraph.search g goal unseen queue entries generalizing seen with
  | case1 => exact ⟨0, Nat.zero_le _, .exhausted⟩
  | case2 unseen entries rest =>
    refine ⟨1, ?_, .found (h.recorded.retraces (h.queued goal List.mem_cons_self) [])⟩
    rw [List.length_cons]
    omega
  | case3 unseen entries current rest hgoal fresh =>
    rename_i ih
    have hseen' : ∀ n, n ∈ fresh.reverse ++ seen ↔
        n ∈ entered source (fresh.reverse.map (·, current) ++ entries) := by
      intro n
      rw [mem_entered_append, List.mem_append, List.mem_reverse, hseen, or_comm]
    obtain ⟨looks, hle, hexplores⟩ := ih (h.step hgoal) hseen'
    refine ⟨looks + 1, ?_, .look hgoal ?_⟩
    · have hfresh : fresh.length + (without fresh unseen).length ≤ unseen.length :=
        g.length_fresh_add_le unseen current
      rw [List.length_append] at hle
      rw [List.length_cons]
      omega
    · rwa [h.look hseen]

/-- Between known packages the loop comes to the answer of the search after it has looked at each
package at most once. -/
theorem explores_path? (hsource : source ∈ g.names) (htarget : target ∈ g.names) :
    ∃ looks ≤ g.names.length,
      g.Explores target (Frontier.start source) looks (g.path? source target) := by
  rw [path?_of_known hsource htarget]
  have hseen : ∀ n, n ∈ [source] ↔ n ∈ entered source [] := fun n => by simp [entered]
  obtain ⟨looks, hle, hexplores⟩ := (g.searching_start source target).explores hseen
  have hothers : (without [source] g.names).length < g.names.length :=
    length_without_lt List.mem_cons_self hsource
  rw [List.length_singleton] at hle
  exact ⟨looks, by omega, hexplores⟩

/-! ### The answers -/

/-- The search is exact. It has no answer just where a name is unknown or the one package does not
lead to the other; else the answer is a chain from the one to the other that meets no package
twice, and no chain is shorter. Between known packages its loops come to an end, with this answer
and no other, and look at each package at most once. -/
theorem path?_exact (g : DependencyGraph) (source target : String) :
    (g.path? source target = none ↔
      source ∉ g.names ∨ target ∉ g.names ∨ ¬ Relation.ReflTransGen g.Edge source target) ∧
    (∀ chain, g.path? source target = some chain → g.SimpleChain source target chain ∧
      ∀ other, g.Chain source target other → chain.length ≤ other.length) ∧
    (source ∈ g.names → target ∈ g.names → ∀ answer,
      (∃ looks ≤ g.names.length, g.Explores target (Frontier.start source) looks answer) ↔
        answer = g.path? source target) := by
  refine ⟨path?_eq_none_iff, fun chain hchain => ⟨simpleChain_of_path? hchain,
    fun other hother => length_le_of_path? hchain hother⟩, fun hsource htarget answer => ?_⟩
  obtain ⟨looks, hle, hexplores⟩ := explores_path? hsource htarget
  constructor
  · rintro ⟨_, -, hother⟩
    exact hother.unique hexplores
  · rintro rfl
    exact ⟨looks, hle, hexplores⟩

end Depsolve.DependencyGraph
