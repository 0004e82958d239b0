import Depsolve.PackageSpec
import Depsolve.Proofs.Constraint.Text
import Depsolve.Proofs.SortedMap
import Depsolve.Proofs.Version.Text

/-!
Specs with a text.

A spec that is `Built` comes from the constructor and the builders, with versions and
constraints that were read off texts. `Built.wellFormed` says that its version and all of its
constraints can be written and read again.
-/

namespace Depsolve.PackageSpec

/-- A spec whose version and constraints are such as can be read. -/
structure WellFormed (s : PackageSpec) : Prop where
  version : s.version.WellFormed
  runtime : s.runtime.WellFormed
  dependencies : ∀ e ∈ s.dependencies.entries, e.2.WellFormed
  extras : ∀ group ∈ s.extras.entries, ∀ e ∈ group.2.entries, e.2.WellFormed

/-- A spec that was built from versions and constraints that were read. -/
inductive Built : PackageSpec → Prop where
  | new (name : String) {text : String} {v : Version} (hv : Version.parse text = .ok v) :
      Built (new name v)
  | withRuntime {s : PackageSpec} {text : String} {c : Constraint} (hs : Built s)
      (hc : Constraint.parse text = .ok c) : Built (s.withRuntime c)
  | withPlatforms {s : PackageSpec} (hs : Built s) (platforms : List String) :
      Built (s.withPlatforms platforms)
  | withDependency {s : PackageSpec} {text : String} {c : Constraint} (hs : Built s)
      (name : String) (hc : Constraint.parse text = .ok c) : Built (s.withDependency name c)
  | withOptionalDependency {s : PackageSpec} {text : String} {c : Constraint} (hs : Built s)
      (group name : String) (hc : Constraint.parse text = .ok c) :
      Built (s.withOptionalDependency group name c)
  | withPrerelease {s : PackageSpec} (hs : Built s) (prerelease : Bool) :
      Built (s.withPrerelease prerelease)

theorem wellFormed_new {v : Version} (hv : v.WellFormed) (name : String) :
    (new name v).WellFormed where
  version := hv
  runtime := Constraint.wellFormed_any
  dependencies e he := by cases he
  extras group hgroup := by cases hgroup

variable {s : PackageSpec} {c : Constraint}

/-- The constraints stay well formed with one more among them. -/
theorem wellFormed_insert {deps : Dependencies} {name : PackageName}
    (hdeps : ∀ e ∈ deps.entries, e.2.WellFormed) (hc : c.WellFormed) :
    ∀ e ∈ (deps.insert name c).entries, e.2.WellFormed := by
  intro e he
  rcases SortedMap.mem_insertEntry_value he with hvalue | hold
  · rwa [hvalue]
  · exact hdeps e hold

theorem WellFormed.withOptionalDependency (h : s.WellFormed) (hc : c.WellFormed)
    (group name : String) : (s.withOptionalDependency group name c).WellFormed where
  version := h.version
  runtime := h.runtime
  dependencies := h.dependencies
  extras := by
    intro e he
    rcases SortedMap.mem_insertEntry_value he with hvalue | hold
    · rw [hvalue]
      refine wellFormed_insert (fun dep hdep => ?_) hc
      cases hget : s.extras.get? (PackageName.of group) with
      | none =>
        rw [hget] at hdep
        cases hdep
      | some deps =>
        rw [hget] at hdep
        obtain ⟨known, hknown, -, rfl⟩ := SortedMap.exists_entry_of_get? hget
        exact h.extras known hknown dep hdep
    · exact h.extras e hold

/-- What was built from versions and constraints that were read can be read. -/
theorem Built.wellFormed (h : s.Built) : s.WellFormed := by
  induction h with
  | new name hv => exact wellFormed_new (Version.wellFormed_of_parse hv) name
  | withRuntime _ hc ih => exact { ih with runtime := Constraint.wellFormed_of_parse hc }
  | withPlatforms _ _ ih => exact { ih with }
  | withDependency _ name hc ih =>
    exact { ih with
      dependencies :=
        wellFormed_insert ih.dependencies (Constraint.wellFormed_of_parse hc) }
  | withOptionalDependency _ group name hc ih =>
    exact ih.withOptionalDependency (Constraint.wellFormed_of_parse hc) group name
  | withPrerelease _ _ ih => exact { ih with }

end Depsolve.PackageSpec
