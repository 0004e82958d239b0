import Depsolve.Proofs.Selection.Filters

/-!
Which versions a failure lists.

A version is at fault for a failure if it passes all filters in front of the one that the failure
names and not that one. The lists are those that the explanation has at hand when it stops: what the
filter in front has left. That is what is at fault where the named filter comes right behind, and not
where another one stands between them.

* `obstacle?` is the first filter that a spec does not pass, and `stoppedBy` are the known specs
  that have a filter as their obstacle.
* `stoppedBy_eq_reaching`: a filter after which nothing is left has stopped all specs that reached
  it.
* `failure_lists_stopped`: a failure lists the versions that its filter has stopped, all of them and
  no others. Only a failure of the platform lists those, too, that the runtime has stopped.
* `platform_failure_lists_supporting`: so it may list a version that supports the platform.
-/

namespace Depsolve

/-- The versions that a failure lists. -/
def SelectionFailure.versions : SelectionFailure → List Version
  | notFound => []
  | unsatisfiable available => available
  | prereleaseOnly prereleases => prereleases
  | runtimeIncompatible rejected => rejected
  | platformIncompatible rejected => rejected

namespace Selector

variable {s : Selector} {constraint : Constraint} {installed : Option Version}
  {spec : PackageSpec} {filter : SelectionFilter} {f : SelectionFailure}

/-! ### Obstacles -/

/-- Whether a spec passes a filter, whatever the others say. -/
def passes (s : Selector) (constraint : Constraint) (spec : PackageSpec) :
    SelectionFilter → Bool
  | .known => true
  | .constraint => constraint.holds spec.version
  | .prerelease => spec.fitsPrerelease s.context
  | .runtime => spec.fitsRuntime s.context
  | .platform => spec.fitsPlatform s.context

/-- The first filter that a spec does not pass. -/
def obstacle? (s : Selector) (constraint : Constraint) (spec : PackageSpec) :
    Option SelectionFilter :=
  SelectionFilter.order.find? fun filter => !s.passes constraint spec filter

/-- The known specs for which a filter is the first that they do not pass. -/
def stoppedBy (s : Selector) (constraint : Constraint) (filter : SelectionFilter) :
    List PackageSpec :=
  s.specs.filter fun spec => s.obstacle? constraint spec = some filter

/-- The known specs that the runtime or the platform stops. -/
def stoppedByTarget (s : Selector) (constraint : Constraint) : List PackageSpec :=
  s.specs.filter fun spec =>
    s.obstacle? constraint spec = some .runtime ∨ s.obstacle? constraint spec = some .platform

theorem obstacle?_eq (s : Selector) (constraint : Constraint) (spec : PackageSpec) :
    s.obstacle? constraint spec =
      if constraint.holds spec.version = false then some .constraint
      else if spec.fitsPrerelease s.context = false then some .prerelease
      else if spec.fitsRuntime s.context = false then some .runtime
      else if spec.fitsPlatform s.context = false then some .platform
      else none := by
  cases hholds : constraint.holds spec.version <;>
    cases hprerelease : spec.fitsPrerelease s.context <;>
    cases hruntime : spec.fitsRuntime s.context <;>
    cases hplatform : spec.fitsPlatform s.context <;>
    simp [obstacle?, SelectionFilter.order, passes, hholds, hprerelease, hruntime, hplatform]

/-! ### Lists -/

/-- The specs that pass all filters in front of one. -/
def reaching (s : Selector) (constraint : Constraint) : SelectionFilter → List PackageSpec
  | .known | .constraint => s.specs
  | .prerelease => s.satisfying constraint
  | .runtime => s.allowed constraint
  | .platform => s.left constraint .runtime

/-- Of the specs that reach a filter those are left that pass it. -/
theorem left_eq_filter (s : Selector) (constraint : Constraint) (filter : SelectionFilter) :
    s.left constraint filter =
      (s.reaching constraint filter).filter fun spec => s.passes constraint spec filter := by
  cases filter with
  | known => exact (List.filter_eq_self.mpr fun _ _ => rfl).symm
  | _ => rfl

/-- The others are stopped by it. -/
theorem stoppedBy_eq_filter (s : Selector) (constraint : Constraint) (filter : SelectionFilter) :
    s.stoppedBy constraint filter =
      (s.reaching constraint filter).filter fun spec => !s.passes constraint spec filter := by
  cases filter <;>
    simp only [stoppedBy, reaching, left, allowed, satisfying, List.filter_filter, passes] <;>
    refine List.filter_congr fun spec _ => ?_ <;>
    rw [obstacle?_eq] <;>
    cases constraint.holds spec.version <;> cases spec.fitsPrerelease s.context <;>
    cases spec.fitsRuntime s.context <;> cases spec.fitsPlatform s.context <;> rfl

/-- A filter after which nothing is left has stopped all that reached it. -/
theorem stoppedBy_eq_reaching (h : s.left constraint filter = []) :
    s.stoppedBy constraint filter = s.reaching constraint filter := by
  rw [left_eq_filter, List.filter_eq_nil_iff] at h
  rw [stoppedBy_eq_filter, List.filter_eq_self]
  intro spec hspec
  rw [Bool.eq_false_iff.mpr (h spec hspec)]
  rfl

/-- Runtime and platform together stop what the prerelease policy has left and one of them refuses. -/
theorem stoppedByTarget_eq_filter (s : Selector) (constraint : Constraint) :
    s.stoppedByTarget constraint = (s.allowed constraint).filter fun spec =>
      !(spec.fitsRuntime s.context && spec.fitsPlatform s.context) := by
  simp only [stoppedByTarget, allowed, satisfying, List.filter_filter]
  refine List.filter_congr fun spec _ => ?_
  rw [obstacle?_eq]
  cases constraint.holds spec.version <;> cases spec.fitsPrerelease s.context <;>
    cases spec.fitsRuntime s.context <;> cases spec.fitsPlatform s.context <;> rfl

theorem stoppedByTarget_eq_allowed (h : s.left constraint .platform = []) :
    s.stoppedByTarget constraint = s.allowed constraint := by
  rw [stoppedByTarget_eq_filter, List.filter_eq_self]
  rw [left, List.filter_filter, List.filter_eq_nil_iff] at h
  intro spec hspec
  rw [Bool.and_comm, Bool.eq_false_iff.mpr (h spec hspec)]
  rfl

/-- What the platform stops is all that the two filters stop, if the runtime stops nothing. -/
theorem map_stoppedByTarget_eq_iff :
    (s.stoppedByTarget constraint).map (·.version) =
        (s.stoppedBy constraint .platform).map (·.version) ↔
      s.stoppedBy constraint .runtime = [] := by
  have hplatform : s.stoppedBy constraint .platform = (s.stoppedByTarget constraint).filter
      fun spec => s.obstacle? constraint spec = some .platform := by
    rw [stoppedByTarget, List.filter_filter]
    refine List.filter_congr fun spec _ => ?_
    rw [← Bool.decide_and]
    exact decide_eq_decide.mpr ⟨fun h => ⟨h, .inr h⟩, And.left⟩
  constructor
  · intro h
    have hlength := congrArg List.length h
    rw [List.length_map, List.length_map, hplatform] at hlength
    have hall := List.length_filter_eq_length_iff.mp hlength.symm
    refine List.filter_eq_nil_iff.mpr fun spec hspec hruntime => ?_
    have hobstacle : s.obstacle? constraint spec = some .runtime := of_decide_eq_true hruntime
    have hmem : spec ∈ s.stoppedByTarget constraint :=
      List.mem_filter.mpr ⟨hspec, by simp [hobstacle]⟩
    simpa [hobstacle] using hall spec hmem
  · intro h
    rw [hplatform, List.filter_eq_self.mpr]
    intro spec hmem
    obtain ⟨hspec, hobstacle⟩ := List.mem_filter.mp hmem
    have hruntime := List.filter_eq_nil_iff.mp h spec hspec
    simp only [decide_eq_true_eq] at hobstacle hruntime ⊢
    exact hobstacle.resolve_left hruntime

theorem Explained.left_eq_nil (h : s.Explained constraint f) :
    s.left constraint f.filter = [] := by
  have hfirst := h.emptied?
  rw [Selector.emptied?] at hfirst
  simpa using List.find?_some hfirst

/-- A failure lists the versions that its filter has stopped, in the order of the known specs; if
that is the platform, there are such versions, and those that the runtime has stopped are listed with
them. -/
theorem Explained.versions (h : s.Explained constraint f) :
    (f.filter ≠ .platform ∧ f.versions = (s.stoppedBy constraint f.filter).map (·.version)) ∨
    (f.filter = .platform ∧ s.stoppedBy constraint .platform ≠ [] ∧
      f.versions = (s.stoppedByTarget constraint).map (·.version)) := by
  have hempty := h.left_eq_nil
  cases h with
  | notFound hspecs =>
    refine .inl ⟨by decide, ?_⟩
    rw [stoppedBy_eq_reaching hempty, SelectionFailure.filter, reaching, hspecs]
    rfl
  | unsatisfiable =>
    exact .inl ⟨by simp [SelectionFailure.filter], by rw [stoppedBy_eq_reaching hempty]; rfl⟩
  | prereleaseOnly =>
    exact .inl ⟨by simp [SelectionFailure.filter], by rw [stoppedBy_eq_reaching hempty]; rfl⟩
  | runtimeIncompatible =>
    exact .inl ⟨by simp [SelectionFailure.filter], by rw [stoppedBy_eq_reaching hempty]; rfl⟩
  | platformIncompatible hruntime =>
    have hstopped : s.stoppedBy constraint .platform = s.left constraint .runtime :=
      stoppedBy_eq_reaching hempty
    obtain ⟨spec, hspec, hfits⟩ := hruntime
    refine .inr ⟨rfl, ?_, by rw [stoppedByTarget_eq_allowed hempty]; rfl⟩
    rw [hstopped]
    exact List.ne_nil_of_mem (List.mem_filter.mpr ⟨hspec, hfits⟩)

/-- What a failed selection lists. Unless the platform is named, these are the versions of the known
specs that pass all filters in front of the named one and not that one, all of them in their order.
If the platform is named, there are such specs, and the versions that the runtime has stopped are
listed with them; so the list is right just if the runtime has stopped none. -/
theorem failure_lists_stopped (h : s.select constraint installed = .error f) :
    (f.filter ≠ .platform →
      f.versions = (s.stoppedBy constraint f.filter).map (·.version)) ∧
    (f.filter = .platform → s.stoppedBy constraint .platform ≠ [] ∧
      f.versions = (s.stoppedByTarget constraint).map (·.version)) ∧
    (f.versions = (s.stoppedBy constraint f.filter).map (·.version) ↔
      (f.filter = .platform → s.stoppedBy constraint .runtime = [])) := by
  rcases (explained_of_select_error h).versions with ⟨hother, hversions⟩ |
    ⟨hplatform, hstopped, hversions⟩
  · exact ⟨fun _ => hversions, fun hplatform => absurd hplatform hother,
      fun _ hplatform => absurd hplatform hother, fun _ => hversions⟩
  · refine ⟨fun hother => absurd hplatform hother, fun _ => ⟨hstopped, hversions⟩, ?_⟩
    rw [hversions, hplatform, map_stoppedByTarget_eq_iff]
    simp

/-- A version that needs a newer runtime than others but supports every platform, and one that works
with every runtime but supports one platform only. -/
def mismatchedCalls : List Registry.Call :=
  [.add ((tool (.release 1 0 0)).withRuntime ⟨[⟨.greaterEq, 3, some 9, none, none⟩]⟩),
    .add ((tool (.release 2 0 0)).withPlatforms ["2024"])]

/-- The choice between these versions for an older runtime and another platform. -/
def mismatched : Selector :=
  ⟨(Registry.empty.fill mismatchedCalls).versionsOf (PackageName.of "tool"),
    ⟨some (.release 3 8 0), some "2022", false, false⟩⟩

theorem select_mismatched : mismatched.select .any none =
    .error (.platformIncompatible [.release 1 0 0, .release 2 0 0]) := by decide +kernel

/-- Both versions are listed; the platform has stopped one of them. -/
theorem failure_lists_stopped_mismatched :
    mismatched.select .any none =
      .error (.platformIncompatible [.release 1 0 0, .release 2 0 0]) ∧
    (mismatched.stoppedBy .any .platform).map (·.version) = [.release 2 0 0] ∧
    (mismatched.stoppedByTarget .any).map (·.version) = [.release 1 0 0, .release 2 0 0] ∧
    mismatched.stoppedBy .any .runtime ≠ [] := by
  have hlists := failure_lists_stopped select_mismatched
  refine ⟨select_mismatched, by decide +kernel, (hlists.2.1 rfl).2.symm, fun hnone => ?_⟩
  exact absurd (hlists.2.2.mpr fun _ => hnone) (by decide +kernel)

/-- Not every version that is listed is stopped by the filter that the failure names: a failure of
the platform may list a version that supports it. -/
theorem platform_failure_lists_supporting :
    ¬ ∀ (s : Selector) (constraint : Constraint) (installed : Option Version)
        (f : SelectionFailure), s.Filled → s.select constraint installed = .error f →
      ∀ v ∈ f.versions, ∃ spec ∈ s.specs, spec.version = v ∧
        s.passes constraint spec f.filter = false := by
  intro hall
  have havailable : mismatched.available =
      (Registry.empty.fill mismatchedCalls).versionsOf (PackageName.of "tool") := rfl
  have hfilled : mismatched.Filled := fun _ hvs =>
    Versions.filled_of_versionsOf (havailable.symm.trans hvs)
  obtain ⟨spec, hspec, hversion, hstops⟩ :=
    hall mismatched .any none _ hfilled select_mismatched (.release 1 0 0) List.mem_cons_self
  have hsupports : ∀ spec ∈ mismatched.specs, spec.version = .release 1 0 0 →
      mismatched.passes .any spec .platform = true := by decide +kernel
  have hpasses := hsupports spec hspec hversion
  rw [SelectionFailure.filter, hpasses] at hstops
  cases hstops

end Selector

end Depsolve
