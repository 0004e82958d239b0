import Depsolve.Proofs.SortedMap
import Depsolve.Registry

/-!
Registries by what they answer.

* `get?_add` and `get?_install` say what one call changes: an added version replaces an equal
  one, an installed version gives way to it.
* `Call` and `fill`: a registry is the outcome of the calls that filled it.
* `Indexed` is what holds of every such registry: a spec is found under its own name and under
  every version equal to its own.
-/

namespace Depsolve.Registry

variable {g : Registry} {name : PackageName} {v : Version}

/-! ### Answers after a call -/

theorem get?_text (g : Registry) (name : PackageName) (v : Version) :
    g.get? name.text v = (g.versionsOf name).bind (·.get? v) := by
  rw [get?, versions, PackageName.of_text]

theorem get?_congr {v' : Version} (h : compare v v' = .eq) :
    g.get? name.text v = g.get? name.text v' := by
  rw [get?_text, get?_text]
  cases g.versionsOf name with
  | none => rfl
  | some vs => exact SortedMap.get?_congr h

/-- The versions of a package after those of one package were exchanged. -/
theorem versionsOf_insert (g : Registry) (installed : SortedMap PackageName PackageSpec)
    (changed name : PackageName) (vs : Versions) :
    versionsOf ⟨g.available.insert changed vs, installed⟩ name =
      if name = changed then some vs else g.versionsOf name := by
  rw [versionsOf, SortedMap.get?_insert, versionsOf]
  simp only [Std.LawfulEqOrd.compare_eq_iff_eq]

/-- The versions of a package as far as any are known answer like the registry. -/
theorem get?_getD_versionsOf (g : Registry) (name : PackageName) (v : Version) :
    ((g.versionsOf name).getD SortedMap.empty).get? v = g.get? name.text v := by
  rw [get?_text]
  cases g.versionsOf name with
  | none => rfl
  | some vs => rfl

/-- An added spec is the answer for its name and every version equal to its own. -/
theorem get?_add (g : Registry) (s : PackageSpec) (name : PackageName) (v : Version) :
    (g.add s).1.get? name.text v =
      if name = s.name ∧ compare v s.version = .eq then some s else g.get? name.text v := by
  rw [get?_text, add, versionsOf_insert]
  by_cases hname : name = s.name
  · subst hname
    rw [if_pos rfl, Option.bind_some, SortedMap.get?_insert, get?_getD_versionsOf]
    simp only [true_and]
  · rw [if_neg hname, if_neg fun h => hname h.1, get?_text]

/-- An installed spec is the answer where there was none before. -/
theorem get?_install (g : Registry) (s : PackageSpec) (name : PackageName) (v : Version) :
    (g.install s).1.get? name.text v =
      if name = s.name ∧ compare v s.version = .eq then some ((g.get? name.text v).getD s)
      else g.get? name.text v := by
  rw [get?_text, install, versionsOf_insert]
  by_cases hname : name = s.name
  · subst hname
    simp only [true_and, if_true, Option.bind_some, SortedMap.insertIfNew, SortedMap.contains,
      get?_getD_versionsOf]
    by_cases hversion : compare v s.version = .eq
    · rw [if_pos hversion, get?_congr hversion]
      cases hknown : g.get? s.name.text s.version with
      | none => exact (SortedMap.get?_insert ..).trans (if_pos hversion)
      | some known =>
        exact (get?_getD_versionsOf g s.name v).trans ((get?_congr hversion).trans hknown)
    · rw [if_neg hversion]
      split
      · rw [get?_getD_versionsOf]
      · rw [SortedMap.get?_insert, if_neg hversion, get?_getD_versionsOf]
  · rw [if_neg hname, if_neg fun h => hname h.1, get?_text]

theorem installedOf_add (g : Registry) (s : PackageSpec) (name : PackageName) :
    (g.add s).1.installedOf name = g.installedOf name := rfl

theorem installedOf_install (g : Registry) (s : PackageSpec) (name : PackageName) :
    (g.install s).1.installedOf name = if name = s.name then some s else g.installedOf name := by
  rw [installedOf, install, SortedMap.get?_insert, installedOf]
  simp only [Std.LawfulEqOrd.compare_eq_iff_eq]

/-! ### Calls -/

/-- A call that fills a registry. -/
inductive Call where
  | add (s : PackageSpec)
  | install (s : PackageSpec)

/-- The spec that a call hands over. -/
def Call.spec : Call → PackageSpec
  | add s => s
  | install s => s

/-- The registry after a call. -/
def apply (g : Registry) : Call → Registry
  | .add s => (g.add s).1
  | .install s => (g.install s).1

/-- The registry after some calls. -/
def fill (g : Registry) (calls : List Call) : Registry := calls.foldl apply g

theorem fill_concat (g : Registry) (calls : List Call) (c : Call) :
    g.fill (calls ++ [c]) = (g.fill calls).apply c := by
  rw [fill, List.foldl_append]
  rfl

/-- An answer after a call was one before, or it is the spec of the call. -/
theorem get?_apply_cases {c : Call} {spec : PackageSpec}
    (h : (g.apply c).get? name.text v = some spec) :
    g.get? name.text v = some spec ∨
      c.spec = spec ∧ spec.name = name ∧ compare v spec.version = .eq := by
  cases c with
  | add s =>
    rw [apply, get?_add] at h
    split at h
    · rename_i hsame
      cases h
      exact .inr ⟨rfl, hsame.1.symm, hsame.2⟩
    · exact .inl h
  | install s =>
    rw [apply, get?_install] at h
    split at h
    · rename_i hsame
      cases hold : g.get? name.text v with
      | none =>
        rw [hold] at h
        cases h
        exact .inr ⟨rfl, hsame.1.symm, hsame.2⟩
      | some known =>
        rw [hold] at h
        exact .inl h
    · exact .inl h

/-- An answer after some calls was one before, or it is the spec of one of the calls. -/
theorem get?_fill_cases {calls : List Call} {spec : PackageSpec}
    (h : (g.fill calls).get? name.text v = some spec) :
    g.get? name.text v = some spec ∨ ∃ c ∈ calls, c.spec = spec := by
  induction calls using List.reverseRecOn with
  | nil => exact .inl h
  | append_singleton calls c ih =>
    rw [fill_concat] at h
    rcases get?_apply_cases h with hold | ⟨hspec, -⟩
    · exact (ih hold).imp_right fun ⟨c', hc', hspec⟩ => ⟨c', List.mem_append_left _ hc', hspec⟩
    · exact .inr ⟨c, by simp, hspec⟩

/-! ### Registries that were filled -/

/-- A spec is registered under a name. -/
def Knows (g : Registry) (name : PackageName) (spec : PackageSpec) : Prop :=
  ∃ vs, g.versionsOf name = some vs ∧ spec ∈ vs.values

/-- Every answer has the name and a version equal to the one that was asked for. -/
structure Indexed (g : Registry) : Prop where
  name : ∀ (name : PackageName) v spec, g.get? name.text v = some spec → spec.name = name
  version : ∀ (name : PackageName) v spec, g.get? name.text v = some spec →
    compare v spec.version = .eq

variable {spec s : PackageSpec}

theorem knows_of_get? (h : g.get? name.text v = some spec) : g.Knows name spec := by
  rw [get?_text, Option.bind_eq_some_iff] at h
  obtain ⟨vs, hvs, hspec⟩ := h
  obtain ⟨e, he, -, heq⟩ := SortedMap.exists_entry_of_get? hspec
  exact ⟨vs, hvs, List.mem_map.mpr ⟨e, he, heq⟩⟩

theorem exists_get?_of_knows (h : g.Knows name spec) :
    ∃ v, g.get? name.text v = some spec := by
  obtain ⟨vs, hvs, hspec⟩ := h
  obtain ⟨e, he, rfl⟩ := List.mem_map.mp hspec
  refine ⟨e.1, ?_⟩
  rw [get?_text, hvs]
  exact SortedMap.get?_of_mem_entries he

namespace Indexed

/-- A registered spec is the answer for its own version. -/
theorem get?_of_knows (h : g.Indexed) (hknows : g.Knows name spec) :
    g.get? name.text spec.version = some spec := by
  obtain ⟨v, hv⟩ := exists_get?_of_knows hknows
  rw [← get?_congr (h.version name v spec hv), hv]

theorem name_of_knows (h : g.Indexed) (hknows : g.Knows name spec) : spec.name = name :=
  h.name name _ spec (h.get?_of_knows hknows)

/-- No two specs of a name have the same version. -/
theorem eq_of_knows (h : g.Indexed) (hspec : g.Knows name spec) (hs : g.Knows name s)
    (hversion : spec.version = s.version) : spec = s := by
  have hanswer := h.get?_of_knows hspec
  rw [hversion, h.get?_of_knows hs] at hanswer
  exact (Option.some.inj hanswer).symm

theorem apply (h : g.Indexed) (c : Call) : (g.apply c).Indexed where
  name name v spec hspec := by
    rcases get?_apply_cases hspec with hold | ⟨rfl, hname, -⟩
    · exact h.name name v spec hold
    · exact hname
  version name v spec hspec := by
    rcases get?_apply_cases hspec with hold | ⟨rfl, -, hversion⟩
    · exact h.version name v spec hold
    · exact hversion

theorem fill (h : g.Indexed) (calls : List Call) : (g.fill calls).Indexed := by
  induction calls using List.reverseRecOn with
  | nil => exact h
  | append_singleton calls c ih =>
    rw [fill_concat]
    exact ih.apply c

end Indexed

theorem indexed_empty : empty.Indexed where
  name _ _ _ h := by cases h
  version _ _ _ h := by cases h

/-- A registry that was filled by calls knows their specs only. -/
theorem exists_call_of_knows {calls : List Call} (h : (empty.fill calls).Knows name spec) :
    ∃ c ∈ calls, c.spec = spec := by
  obtain ⟨v, hv⟩ := exists_get?_of_knows h
  rcases get?_fill_cases hv with hnone | hcall
  · cases hnone
  · exact hcall

/-- Every registry that was filled by calls is indexed. -/
theorem indexed_fill (calls : List Call) : (empty.fill calls).Indexed := indexed_empty.fill calls

end Depsolve.Registry
