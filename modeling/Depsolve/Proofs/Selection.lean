import Depsolve.Proofs.Registry
import Depsolve.Resolver.Basic

/-!
What a selection tells about the candidates.

A spec that is selected is a candidate, and a selection fails only where there is none. So
a version that was selected under one constraint satisfies no constraint under which
nothing could be selected: the constraint is the only filter in which the two differ.

`Explained` lists the reasons for which there is no candidate, each with what it means for
the known specs; `explained_of_select_error` says that a failed selection gives the one that
applies. Selection and explanation put the filters in different orders, so this is where they
are brought together.
-/

namespace Depsolve

namespace Selector

variable {s : Selector} {constraint constraint' : Constraint} {installed : Option Version}
  {spec : PackageSpec}

theorem mem_compatible :
    spec ∈ s.compatible constraint ↔ spec ∈ s.specs ∧ s.accepts constraint spec = true := by
  rw [compatible, List.mem_filter, List.mem_reverse]

theorem mem_of_preferred {candidates : List PackageSpec}
    (h : s.preferred candidates installed = some spec) : spec ∈ candidates := by
  unfold preferred at h
  split at h
  · split at h
    · exact List.mem_of_find?_eq_some h
    · cases h
  · cases h

/-- The selected spec is one of the candidates. -/
theorem mem_compatible_of_select (h : s.select constraint installed = .ok spec) :
    spec ∈ s.compatible constraint := by
  unfold select at h
  dsimp only at h
  split at h
  · rename_i chosen hchosen
    cases h
    rcases hpreferred : s.preferred (s.compatible constraint) installed with _ | kept
    · rw [hpreferred] at hchosen
      exact List.mem_of_mem_head? hchosen
    · rw [hpreferred] at hchosen
      cases hchosen
      exact mem_of_preferred hpreferred
  · cases h

/-- A selection that fails had no candidate. -/
theorem compatible_of_select_error {f : SelectionFailure}
    (h : s.select constraint installed = .error f) : s.compatible constraint = [] := by
  unfold select at h
  dsimp only at h
  split at h
  · cases h
  · rename_i hnone
    simp only [Option.orElse_eq_orElse, Option.orElse_eq_or, Option.or_eq_none_iff] at hnone
    exact List.head?_eq_none_iff.mp hnone.2

/-- Where installed versions are preferred, the installed one is selected if it passes. -/
theorem select_of_preferred (hprefer : s.context.preferInstalled = true)
    (hspec : spec ∈ s.compatible constraint)
    (honly : ∀ other ∈ s.specs, other.version = spec.version → other = spec) :
    s.select constraint (some spec.version) = .ok spec := by
  have hpreferred : s.preferred (s.compatible constraint) (some spec.version) = some spec := by
    simp only [preferred, hprefer, if_true]
    obtain ⟨kept, hkept⟩ := Option.isSome_iff_exists.mp
      (List.find?_isSome (p := fun c => decide (c.version = spec.version)) |>.mpr
        ⟨spec, hspec, decide_eq_true rfl⟩)
    have hversion : kept.version = spec.version := by simpa using List.find?_some hkept
    rw [hkept, honly kept (mem_compatible.mp (List.mem_of_find?_eq_some hkept)).1 hversion]
  simp only [select, hpreferred, Option.orElse_eq_orElse, Option.orElse_eq_or, Option.some_or]

theorem holds_of_accepts (h : s.accepts constraint spec = true) :
    constraint.holds spec.version = true := by
  simp only [accepts, Bool.and_eq_true] at h
  exact h.1.1.1

theorem fits_of_accepts (h : s.accepts constraint spec = true) :
    spec.fitsRuntime s.context = true ∧ spec.fitsPlatform s.context = true ∧
      spec.fitsPrerelease s.context = true := by
  simp only [accepts, Bool.and_eq_true] at h
  exact ⟨h.1.1.2, h.1.2, h.2⟩

/-- What passes the filters under one constraint passes them under every other that its
version satisfies. -/
theorem accepts_of_holds (h : s.accepts constraint spec = true)
    (hholds : constraint'.holds spec.version = true) : s.accepts constraint' spec = true := by
  simp only [accepts, Bool.and_eq_true] at h ⊢
  exact ⟨⟨⟨hholds, h.1.1.2⟩, h.1.2⟩, h.2⟩

/-! ### Reasons for a failure -/

/-- The known specs whose versions satisfy the constraint. -/
def satisfying (s : Selector) (constraint : Constraint) : List PackageSpec :=
  s.specs.filter fun spec => constraint.holds spec.version

/-- Those of them that the prerelease policy lets pass. -/
def allowed (s : Selector) (constraint : Constraint) : List PackageSpec :=
  (s.satisfying constraint).filter (·.fitsPrerelease s.context)

theorem mem_allowed :
    spec ∈ s.allowed constraint ↔ spec ∈ s.specs ∧ constraint.holds spec.version = true ∧
      spec.fitsPrerelease s.context = true := by
  rw [allowed, satisfying, List.mem_filter, List.mem_filter, and_assoc]

/-- The reasons for which no spec is a candidate: what the first filter that lets nothing pass
found in front of it. -/
inductive Explained (s : Selector) (constraint : Constraint) : SelectionFailure → Prop where
  | notFound (hspecs : s.specs = []) : Explained s constraint .notFound
  | unsatisfiable (hspecs : s.specs ≠ []) (hsatisfying : s.satisfying constraint = []) :
      Explained s constraint (.unsatisfiable (s.specs.map (·.version)))
  | prereleaseOnly (hsatisfying : s.satisfying constraint ≠ [])
      (hallowed : s.allowed constraint = []) :
      Explained s constraint (.prereleaseOnly ((s.satisfying constraint).map (·.version)))
  | runtimeIncompatible (hallowed : s.allowed constraint ≠ [])
      (hruntime : ∀ spec ∈ s.allowed constraint, spec.fitsRuntime s.context = false) :
      Explained s constraint (.runtimeIncompatible ((s.allowed constraint).map (·.version)))
  | platformIncompatible
      (hruntime : ∃ spec ∈ s.allowed constraint, spec.fitsRuntime s.context = true)
      (hplatform : ∀ spec ∈ s.allowed constraint, spec.fitsRuntime s.context = true →
        spec.fitsPlatform s.context = false) :
      Explained s constraint (.platformIncompatible ((s.allowed constraint).map (·.version)))

/-- What passes the filters of the explanation and those of runtime and platform is a
candidate. -/
theorem mem_compatible_of_mem_allowed (h : spec ∈ s.allowed constraint)
    (hruntime : spec.fitsRuntime s.context = true)
    (hplatform : spec.fitsPlatform s.context = true) : spec ∈ s.compatible constraint := by
  obtain ⟨hspec, hholds, hprerelease⟩ := mem_allowed.mp h
  refine mem_compatible.mpr ⟨hspec, ?_⟩
  simp only [accepts, hholds, hruntime, hplatform, hprerelease, Bool.and_self]

/-- Where there is no candidate, the explanation is the reason. -/
theorem explained_explain (h : s.compatible constraint = []) :
    s.Explained constraint (s.explain constraint) := by
  unfold explain
  split
  · rename_i hspecs
    exact .notFound (List.isEmpty_iff.mp hspecs)
  · rename_i hspecs
    dsimp only
    split
    · rename_i hsatisfying
      exact .unsatisfiable (by simpa using hspecs) (List.isEmpty_iff.mp hsatisfying)
    · rename_i hsatisfying
      split
      · rename_i hallowed
        exact .prereleaseOnly (by simpa [satisfying] using hsatisfying)
          (List.isEmpty_iff.mp hallowed)
      · rename_i hallowed
        split
        · rename_i hruntime
          refine .runtimeIncompatible (by simpa [allowed, satisfying] using hallowed) ?_
          rw [Bool.not_eq_true', List.any_eq_false] at hruntime
          intro spec hspec
          exact Bool.eq_false_iff.mpr (hruntime spec hspec)
        · rename_i hruntime
          refine .platformIncompatible ?_ ?_
          · rw [Bool.not_eq_true', Bool.not_eq_false, List.any_eq_true] at hruntime
            exact hruntime
          · intro spec hspec hfits
            rw [Bool.eq_false_iff]
            intro hplatform
            have hmem := mem_compatible_of_mem_allowed hspec hfits hplatform
            rw [h] at hmem
            cases hmem

/-- A selection that fails gives the reason for which there is no candidate. -/
theorem explained_of_select_error {f : SelectionFailure}
    (h : s.select constraint installed = .error f) : s.Explained constraint f := by
  have hnone := compatible_of_select_error h
  unfold select at h
  dsimp only at h
  split at h
  · cases h
  · cases h
    exact explained_explain hnone

end Selector

namespace Resolver

/-- The resolver after a call that fills its registry. -/
def apply (r : Resolver) : Registry.Call → Resolver
  | .add s => r.register s
  | .install s => r.registerInstalled s

/-- The resolver after some such calls. -/
def after (r : Resolver) (calls : List Registry.Call) : Resolver := calls.foldl apply r

/-- The calls fill the registry and leave the environment as it is. -/
theorem after_eq (r : Resolver) (calls : List Registry.Call) :
    r.after calls = ⟨r.registry.fill calls, r.context⟩ := by
  induction calls generalizing r with
  | nil => rfl
  | cons c calls ih =>
    refine (ih (r.apply c)).trans ?_
    cases c with
    | add s => rfl
    | install s => rfl

/-- The registry of a resolver that was filled by calls is indexed. -/
theorem indexed_after (context : Context) (calls : List Registry.Call) :
    ((new context).after calls).registry.Indexed := by
  rw [after_eq]
  exact Registry.indexed_fill calls

variable {r : Resolver} {name : PackageName} {constraint constraint' : Constraint}
  {spec : PackageSpec}

theorem mem_specs_selector :
    spec ∈ (r.selector name).specs ↔ r.registry.Knows name spec := by
  simp only [selector, Selector.specs, Registry.Knows]
  cases r.registry.versionsOf name with
  | none => simp
  | some vs => simp

theorem mem_compatible_of_choose (h : r.choose name constraint = .ok spec) :
    spec ∈ (r.selector name).compatible constraint :=
  Selector.mem_compatible_of_select h

/-- What is chosen for a package is known under its name. -/
theorem knows_of_choose (h : r.choose name constraint = .ok spec) : r.registry.Knows name spec :=
  mem_specs_selector.mp (Selector.mem_compatible.mp (mem_compatible_of_choose h)).1

/-- A chosen version satisfies the constraint it was chosen for. -/
theorem holds_of_choose (h : r.choose name constraint = .ok spec) :
    constraint.holds spec.version = true :=
  Selector.holds_of_accepts (Selector.mem_compatible.mp (mem_compatible_of_choose h)).2

/-- A version that can be chosen satisfies no constraint under which none can be chosen. -/
theorem not_holds_of_choose_error {f : SelectionFailure} (h : r.choose name constraint = .ok spec)
    (hfail : r.choose name constraint' = .error f) : constraint'.holds spec.version = false := by
  rw [Bool.eq_false_iff]
  intro hholds
  obtain ⟨hspec, haccepts⟩ := Selector.mem_compatible.mp (mem_compatible_of_choose h)
  have hmem : spec ∈ (r.selector name).compatible constraint' :=
    Selector.mem_compatible.mpr ⟨hspec, Selector.accepts_of_holds haccepts hholds⟩
  rw [Selector.compatible_of_select_error hfail] at hmem
  cases hmem

end Resolver

end Depsolve
