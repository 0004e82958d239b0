import Depsolve.Proofs.Resolver.Grounds

/-!
Resolutions without conflict, foreseen from the registry alone.

Take for every request what the selection gives for it, and for the spec that it gives every
dependency in force. Where this never fails, never gives two specs of one package and never goes
round in a circle, a resolution has nothing to decide.

* `Wanted` are the specs that come up in this way, `Needs` is how one of them brings in another.
* `Reached.wanted`: no other specs are ever chosen, whether or not the requests get along.
* `Harmonious` says that they do. No reason for a conflict (`Grounded`) can then be true of a
  request, so none is reported.
* `Harmonious.resolve`: then the wanted specs are chosen, all of them, and each is installed after
  those it needs.
-/

namespace Depsolve

variable {r : Resolver} {roots more : List Requirement} {s : Session} {name : PackageName}
  {constraint : Constraint} {spec : PackageSpec} {dep : PackageName × Constraint}

namespace Resolver

/-! ### What requests come down to -/

/-- The specs that come up if every request gets what the selection gives for it, from the roots
on. -/
inductive Wanted (r : Resolver) (roots : List Requirement) : PackageSpec → Prop where
  | root {root : Requirement} {spec : PackageSpec} (hroot : root ∈ roots)
      (hchoose : r.choose (PackageName.of root.name) root.constraint = .ok spec) :
      Wanted r roots spec
  | dependency {parent spec : PackageSpec} {dep : PackageName × Constraint}
      (hparent : Wanted r roots parent) (hforce : InForce roots parent.name.text parent dep)
      (hchoose : r.choose dep.1 dep.2 = .ok spec) : Wanted r roots spec

/-- The selection gives one spec for a dependency in force of another. -/
def Needs (r : Resolver) (roots : List Requirement) (a b : PackageSpec) : Prop :=
  ∃ dep, InForce roots a.name.text a dep ∧ r.choose dep.1 dep.2 = .ok b

/-- Requests that get along: there is a spec for each of them, of no package two, and none needs
itself in the end. -/
structure Harmonious (r : Resolver) (roots : List Requirement) : Prop where
  root : ∀ root ∈ roots, ∃ spec, r.choose (PackageName.of root.name) root.constraint = .ok spec
  dependency : ∀ a, r.Wanted roots a → ∀ dep, InForce roots a.name.text a dep →
    ∃ spec, r.choose dep.1 dep.2 = .ok spec
  single : ∀ a b, r.Wanted roots a → r.Wanted roots b → a.name = b.name → a = b
  acyclic : ∀ a, r.Wanted roots a → ¬ Relation.TransGen (r.Needs roots) a a

theorem Wanted.mono (h : r.Wanted roots spec) (hsub : ∀ q ∈ roots, q ∈ more) :
    r.Wanted more spec := by
  induction h with
  | root hroot hchoose => exact .root (hsub _ hroot) hchoose
  | dependency _ hforce hchoose ih => exact .dependency ih (hforce.mono hsub) hchoose

theorem name_of_choose (hindexed : r.registry.Indexed)
    (h : r.choose name constraint = .ok spec) : spec.name = name :=
  hindexed.name_of_knows (knows_of_choose h)

/-! ### Only what is wanted is chosen -/

/-- Every choice so far is wanted, and it stands under the name of its spec. -/
def ChoosesWanted (r : Resolver) (roots : List Requirement) (s : Session) : Prop :=
  ∀ n spec, s.resolved.get? n = some spec → r.Wanted roots spec ∧ spec.name.text = n

/-- What the selection gives for a request is wanted if the choices so far are. -/
theorem ChoosesWanted.wanted (h : r.ChoosesWanted roots s)
    (hrequested : Requested roots s.resolved name constraint)
    (hchoose : r.choose name constraint = .ok spec) : r.Wanted roots spec := by
  cases hrequested with
  | root hroot hname hconstraint =>
    subst hname hconstraint
    exact .root hroot hchoose
  | dependency hparent hforce =>
    obtain ⟨hwanted, rfl⟩ := h _ _ hparent
    exact .dependency hwanted hforce hchoose

theorem ChoosesWanted.enter (h : r.ChoosesWanted roots s) (hindexed : r.registry.Indexed)
    (hreached : r.Reached roots s) {t : Task} {rest : List Frame}
    (hstack : s.stack = .enter t :: rest) :
    r.ChoosesWanted roots (r.enter { s with stack := rest } t) := by
  have hdeclared : t.Declared roots s.resolved := hreached.genuine.tasks t (by simp [hstack])
  intro n spec hspec
  rcases (r.enters { s with stack := rest } t).resolved_cases hspec with
    hold | ⟨rfl, -, hchoose, -⟩
  · exact h n spec hold
  · exact ⟨h.wanted hdeclared.requested hchoose,
      congrArg PackageName.text (name_of_choose hindexed hchoose)⟩

/-- In every state of every resolution all choices are wanted. -/
theorem Reached.wanted (h : r.Reached roots s) (hindexed : r.registry.Indexed) :
    r.ChoosesWanted roots s := by
  refine h.invariant (P := r.ChoosesWanted) ?_ ?_ ?_ ?_
  · intro n spec hspec
    cases hspec
  · intro _ _ root _ hwanted n spec hspec
    exact (hwanted n spec hspec).imp_left fun h => h.mono fun _ => List.mem_append_left _
  · intro _ _ _ _ hreached hstack hwanted
    exact hwanted.enter hindexed hreached hstack
  · intro _ _ _ _ _ hwanted
    exact hwanted

/-! ### No reason for a conflict -/

namespace Harmonious

/-- There is a spec for every request of a resolution. -/
theorem exists_choose (h : r.Harmonious roots) (hwanted : r.ChoosesWanted roots s)
    (hrequested : Requested roots s.resolved name constraint) :
    ∃ spec, r.choose name constraint = .ok spec := by
  cases hrequested with
  | root hroot hname hconstraint =>
    subst hname hconstraint
    exact h.root _ hroot
  | dependency hparent hforce =>
    obtain ⟨hparentWanted, rfl⟩ := hwanted _ _ hparent
    exact h.dependency _ hparentWanted (name, constraint) hforce

/-- What was chosen for a package is what any other request gets for it. -/
theorem eq_of_resolved (h : r.Harmonious roots) (hwanted : r.ChoosesWanted roots s)
    {chosen : PackageSpec} (hchosen : s.resolved.get? spec.name.text = some chosen)
    (hspec : r.Wanted roots spec) : chosen = spec := by
  obtain ⟨hchosenWanted, hname⟩ := hwanted _ _ hchosen
  exact h.single _ _ hchosenWanted hspec (PackageName.ext hname)

/-- A declared dependency between chosen packages is a need. -/
theorem needs_of_dependsOn (h : r.Harmonious roots) (hindexed : r.registry.Indexed)
    (hwanted : r.ChoosesWanted roots s) {a b : String} {specA specB : PackageSpec}
    (hdepends : DependsOn roots s.resolved a b) (ha : s.resolved.get? a = some specA)
    (hb : s.resolved.get? b = some specB) : r.Needs roots specA specB := by
  obtain ⟨spec, dep, hspec, hforce, rfl⟩ := hdepends
  cases ha.symm.trans hspec
  obtain ⟨hwantedA, rfl⟩ := hwanted _ _ ha
  obtain ⟨given, hgiven⟩ := h.dependency _ hwantedA dep hforce
  have hname : given.name = dep.1 := name_of_choose hindexed hgiven
  have hsame : specB = given :=
    h.eq_of_resolved hwanted (hname ▸ hb) (.dependency hwantedA hforce hgiven)
  exact ⟨dep, hforce, hsame ▸ hgiven⟩

/-- Declared dependencies in a row are needs in a row. -/
theorem transGen_needs_of_isChain (h : r.Harmonious roots) (hindexed : r.registry.Indexed)
    (hwanted : r.ChoosesWanted roots s) {a b : String} {between : List String}
    {specA specB : PackageSpec}
    (hchain : (a :: (between ++ [b])).IsChain (DependsOn roots s.resolved))
    (ha : s.resolved.get? a = some specA) (hb : s.resolved.get? b = some specB) :
    Relation.TransGen (r.Needs roots) specA specB := by
  induction between generalizing a specA with
  | nil =>
    have hdepends : DependsOn roots s.resolved a b := by simpa using hchain
    exact .single (h.needs_of_dependsOn hindexed hwanted hdepends ha hb)
  | cons n between ih =>
    obtain ⟨hdepends, hrest⟩ := List.isChain_cons_cons.mp hchain
    -- Something is declared after it in the row, so it is chosen.
    have hsources : ∀ m ∈ n :: between, m ∈ s.resolved.keys := mem_keys_of_isChain hrest
    obtain ⟨specN, hspecN⟩ := InsertionMap.mem_keys_iff.mp (hsources n List.mem_cons_self)
    exact .head (h.needs_of_dependsOn hindexed hwanted hdepends ha hspecN) (ih hrest hspecN)

/-- Of the reasons for a conflict none but a cycle can be true of a request that gets a spec. -/
theorem circular_of_grounded (h : r.Harmonious roots) (hindexed : r.registry.Indexed)
    (hwanted : r.ChoosesWanted roots s)
    (hrequested : Requested roots s.resolved name constraint) {kind : ConflictKind}
    (hgrounded : Grounded r s.resolved name constraint kind) : kind = .circular := by
  obtain ⟨spec, hchoose⟩ := h.exists_choose hwanted hrequested
  have hknows : r.registry.Knows name spec := knows_of_choose hchoose
  have haccepts : (r.selector name).accepts constraint spec = true :=
    (Selector.mem_compatible.mp (mem_compatible_of_choose hchoose)).2
  have hfits : spec.fitsRuntime r.context = true ∧ spec.fitsPlatform r.context = true ∧
      spec.fitsPrerelease r.context = true := Selector.fits_of_accepts haccepts
  have hallows : r.Allows name constraint spec :=
    ⟨hknows, holds_of_choose hchoose, hfits.2.2⟩
  cases hgrounded with
  | circular => rfl
  | missing hunknown => exact absurd hknows (hunknown spec)
  | disagreement hresolved hfails =>
    obtain rfl : spec.name = name := name_of_choose hindexed hchoose
    have hsame := h.eq_of_resolved hwanted hresolved (hwanted.wanted hrequested hchoose)
    rw [hsame, holds_of_choose hchoose] at hfails
    cases hfails
  | unsatisfiable _ hnone => exact absurd hallows (hnone spec)
  | runtime _ hfails =>
    exact absurd hfits.1 (Bool.eq_false_iff.mp (hfails spec hallows))
  | platform _ hfails =>
    exact absurd hfits.2.1 (Bool.eq_false_iff.mp (hfails spec hallows hfits.1))

/-- Where requests get along, no conflict is ever reported. -/
theorem conflicts_eq_nil (h : r.Harmonious roots) (hindexed : r.registry.Indexed)
    (hreached : r.Reached roots s) : s.conflicts = [] := by
  have hwanted : r.ChoosesWanted roots s := hreached.wanted hindexed
  refine List.eq_nil_iff_forall_not_mem.mpr fun c hc => ?_
  obtain ⟨name, constraint, -, hrequested, hgrounded⟩ := hreached.warranted c hc
  have hkind : c.kind = .circular := h.circular_of_grounded hindexed hwanted hrequested hgrounded
  obtain ⟨first, others, -, hcircuit⟩ := hreached.genuine.circuits c hc hkind
  obtain ⟨spec, hspec⟩ := InsertionMap.mem_keys_iff.mp
    (hcircuit.mem_keys first List.mem_cons_self)
  exact h.acyclic spec (hwanted first spec hspec).1
    (h.transGen_needs_of_isChain hindexed hwanted hcircuit.linked hspec hspec)

/-! ### Everything wanted is chosen -/

/-- With nothing left to do, a request that gets a spec has it chosen. -/
theorem resolved_of_settled (h : r.Harmonious roots) (hindexed : r.registry.Indexed)
    (hreached : r.Reached roots s) {parent : Option PackageName}
    (hsettled : Settled r s parent name constraint) (hspec : r.Wanted roots spec)
    (hchoose : r.choose name constraint = .ok spec) :
    s.resolved.get? spec.name.text = some spec ∧
      ∀ p, parent = some p → s.graph.Edge p.text spec.name.text := by
  obtain rfl : spec.name = name := name_of_choose hindexed hchoose
  obtain ⟨chosen, hchosen, -, hedge⟩ :=
    hsettled.satisfied_of_clean (h.conflicts_eq_nil hindexed hreached)
  have hsame : chosen = spec := h.eq_of_resolved (hreached.wanted hindexed) hchosen hspec
  exact ⟨hsame ▸ hchosen, hedge⟩

/-- With nothing left to do, every wanted spec is chosen. -/
theorem resolved_of_wanted (h : r.Harmonious roots) (hindexed : r.registry.Indexed)
    (hreached : r.Reached roots s) (hstack : s.stack = []) (hspec : r.Wanted roots spec) :
    s.resolved.get? spec.name.text = some spec := by
  induction hspec with
  | root hroot hchoose =>
    have hsettled := (hreached.accounted.settled_root hstack hroot).settled
    exact (h.resolved_of_settled hindexed hreached hsettled (.root hroot hchoose) hchoose).1
  | dependency hparent hforce hchoose ih =>
    have hsettled := hreached.accounted.settled hstack ih hforce
    exact (h.resolved_of_settled hindexed hreached hsettled (.dependency hparent hforce hchoose)
      hchoose).1

/-- Where requests get along, the resolution succeeds. The wanted specs are chosen and no others,
and the order of installation lists each of them after those it needs. -/
theorem resolve (h : r.Harmonious roots) (hindexed : r.registry.Indexed) :
    (r.resolve roots).isSuccessful = true ∧
    (∀ n spec, (r.resolve roots).resolved.get? n = some spec ↔
      r.Wanted roots spec ∧ spec.name.text = n) ∧
    (r.resolve roots).order.Perm (r.resolve roots).resolved.keys ∧
    ∀ a b, r.Wanted roots a → r.Needs roots a b →
      (r.resolve roots).order.idxOf b.name.text < (r.resolve roots).order.idxOf a.name.text := by
  obtain ⟨hreached, hstack⟩ := r.reached_afterRoots roots
  obtain ⟨order, -, hfinish, -, hperm, hfirst⟩ := hreached.coherent.finish
  rw [r.resolve_eq_finish, hfinish]
  generalize r.afterRoots roots = s at hreached hstack hperm hfirst ⊢
  refine ⟨?_, fun n spec => ⟨hreached.wanted hindexed n spec, ?_⟩, hperm, ?_⟩
  · rw [Resolution.isSuccessful, h.conflicts_eq_nil hindexed hreached]
    rfl
  · rintro ⟨hwanted, rfl⟩
    exact h.resolved_of_wanted hindexed hreached hstack hwanted
  · rintro a b ha ⟨dep, hforce, hchoose⟩
    have hresolved := h.resolved_of_wanted hindexed hreached hstack ha
    have hsettled := hreached.accounted.settled hstack hresolved hforce
    exact hfirst _ _ ((h.resolved_of_settled hindexed hreached hsettled
      (.dependency ha hforce hchoose) hchoose).2 a.name rfl)

end Harmonious

end Resolver

end Depsolve
