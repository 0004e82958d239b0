import Depsolve.LockFile.Basic
import Depsolve.Proofs.Document
import Depsolve.Proofs.PackageSpec

/-!
Locked packages and the specs that they are made of.

* `WellFormed.decode_document`: a package is decoded from the document that it is written as,
  provided that its version and its constraints are such as can be read.
* `toSpec_ofSpec`: a spec is restored from what is kept of it. Names and platforms are kept in
  the forms in which the spec has them, so that nothing falls together, and no group is lost
  since none is empty.
-/

namespace Depsolve.LockedPackage

variable {p : LockedPackage} {name : String}

/-! ### The written form -/

/-- A package whose version and constraints are such as can be read. -/
structure WellFormed (p : LockedPackage) : Prop where
  version : p.version.WellFormed
  runtime : p.runtime.WellFormed
  dependencies : ∀ e ∈ p.dependencies.entries, e.2.WellFormed
  extras : ∀ group ∈ p.extras.entries, ∀ e ∈ group.2.entries, e.2.WellFormed

/-- A map comes back as it was written. -/
theorem decodeMap_document {α : Type} {f : Decoder α} {write : α → Json} {m : SortedMap String α}
    (hread : ∀ e ∈ m.entries, f (write e.2).document = .ok e.2) :
    decodeMap f (Json.object (m.entries.map fun e => (e.1, write e.2))).document = .ok m := by
  rw [decodeMap, Decoder.entries_document m.nodup_keys hread, SortedMap.ofList_entries]
  exact congrArg Except.ok m.ofList_entries

theorem decode_dependenciesJson {deps : LockedDependencies}
    (h : ∀ e ∈ deps.entries, e.2.WellFormed) :
    decodeMap Constraint.decode (dependenciesJson deps).document = .ok deps :=
  decodeMap_document fun e he => (h e he).decode_document

theorem decode_platforms (platforms : SortedSet String) :
    (Decoder.list Decoder.text (Json.array (platforms.toList.map .text)).document).map
      SortedSet.ofList = .ok platforms := by
  rw [Decoder.list_document fun _ _ => rfl]
  exact congrArg Except.ok platforms.ofList_toList

/-- The fields that a package is written with. -/
def fields (p : LockedPackage) : List (String × Json) :=
  [("version", p.version.toJson), ("runtime_version_constraint", p.runtime.toJson),
    ("supported_platform_versions", .array (p.platforms.toList.map .text)),
    ("dependencies", dependenciesJson p.dependencies),
    ("optional_dependencies",
      .object (p.extras.entries.map fun e => (e.1, dependenciesJson e.2))),
    ("is_prerelease", .bool p.prerelease)]

theorem nodup_fields (p : LockedPackage) : (p.fields.map (·.1)).Nodup := by
  simp [fields]

/-- A package comes back as it was written. -/
theorem WellFormed.decode_document (h : p.WellFormed) : decode p.toJson.document = .ok p := by
  have hversion : layout.required (.written p.fields) "version" Version.decode =
      .ok p.version :=
    Layout.required_written p.nodup_fields (j := p.version.toJson) (by simp [fields])
      h.version.decode_document
  have hruntime : layout.required (.written p.fields) "runtime_version_constraint"
      Constraint.decode = .ok p.runtime :=
    Layout.required_written p.nodup_fields (j := p.runtime.toJson) (by simp [fields])
      h.runtime.decode_document
  have hplatforms : layout.required (.written p.fields) "supported_platform_versions"
      (fun d => (Decoder.list Decoder.text d).map SortedSet.ofList) = .ok p.platforms :=
    Layout.required_written p.nodup_fields (j := .array (p.platforms.toList.map .text))
      (by simp [fields]) (decode_platforms p.platforms)
  have hdependencies : layout.required (.written p.fields) "dependencies"
      (decodeMap Constraint.decode) = .ok p.dependencies :=
    Layout.required_written p.nodup_fields (j := dependenciesJson p.dependencies)
      (by simp [fields]) (decode_dependenciesJson h.dependencies)
  have hextras : layout.required (.written p.fields) "optional_dependencies"
      (decodeMap (decodeMap Constraint.decode)) = .ok p.extras :=
    Layout.required_written p.nodup_fields
      (j := .object (p.extras.entries.map fun e => (e.1, dependenciesJson e.2)))
      (by simp [fields])
      (decodeMap_document fun group hgroup => decode_dependenciesJson (h.extras group hgroup))
  have hprerelease : layout.required (.written p.fields) "is_prerelease" Decoder.bool =
      .ok p.prerelease :=
    Layout.required_written p.nodup_fields (j := .bool p.prerelease) (by simp [fields]) rfl
  refine Layout.decode_document p.fields ?_
  rw [hversion, hruntime, hplatforms, hdependencies, hextras, hprerelease]
  rfl

/-! ### Restored specs -/

/-- The groups with one more dependency in one of them. -/
def addOptional (extras : SortedMap PackageName Dependencies) (group name : PackageName)
    (c : Constraint) : SortedMap PackageName Dependencies :=
  extras.insert group (((extras.get? group).getD SortedMap.empty).insert name c)

/-- The restored spec before it has any dependency. -/
def bareSpec (p : LockedPackage) (name : String) : PackageSpec :=
  (((PackageSpec.new name p.version).withRuntime p.runtime).withPlatforms
    p.platforms.toList).withPrerelease p.prerelease

/-- The restored spec before it has any group. -/
def requiredSpec (p : LockedPackage) (name : String) : PackageSpec :=
  p.dependencies.entries.foldl (fun s e => s.withDependency e.1 e.2) (p.bareSpec name)

/-- The spec with the dependencies of one more group. -/
def withGroup (s : PackageSpec) (group : String × LockedDependencies) : PackageSpec :=
  group.2.entries.foldl (fun s e => s.withOptionalDependency group.1 e.1 e.2) s

theorem toSpec_eq (p : LockedPackage) (name : String) :
    p.toSpec name = p.extras.entries.foldl withGroup (p.requiredSpec name) := rfl

/-- What no step changes is in the end as it was in the beginning. -/
theorem foldl_frame {σ β γ : Type} (proj : σ → β) (step : σ → γ → σ)
    (hkeep : ∀ s x, proj (step s x) = proj s) (xs : List γ) (s : σ) :
    proj (xs.foldl step s) = proj s := by
  induction xs generalizing s with
  | nil => rfl
  | cons x xs ih => exact (ih _).trans (hkeep s x)

section Frame

variable {β : Type} (proj : PackageSpec → β)

/-- What no group changes is as in the spec without groups. -/
theorem toSpec_frame_extras (p : LockedPackage) (name : String)
    (hoptional : ∀ s g n c, proj (s.withOptionalDependency g n c) = proj s) :
    proj (p.toSpec name) = proj (p.requiredSpec name) := by
  have hgroup : ∀ s group, proj (withGroup s group) = proj s := fun s group =>
    foldl_frame proj (fun s (e : String × Constraint) => s.withOptionalDependency group.1 e.1 e.2)
      (fun s e => hoptional s group.1 e.1 e.2) group.2.entries s
  rw [toSpec_eq]
  exact foldl_frame proj withGroup hgroup p.extras.entries _

/-- What no required dependency changes is as in the spec without dependencies. -/
theorem requiredSpec_frame (p : LockedPackage) (name : String)
    (hrequired : ∀ s n c, proj (s.withDependency n c) = proj s) :
    proj (p.requiredSpec name) = proj (p.bareSpec name) :=
  foldl_frame proj (fun s (e : String × Constraint) => s.withDependency e.1 e.2)
    (fun s e => hrequired s e.1 e.2) p.dependencies.entries _

/-- What no dependency changes is as in the spec without dependencies. -/
theorem toSpec_frame (p : LockedPackage) (name : String)
    (hrequired : ∀ s n c, proj (s.withDependency n c) = proj s)
    (hoptional : ∀ s g n c, proj (s.withOptionalDependency g n c) = proj s) :
    proj (p.toSpec name) = proj (p.bareSpec name) :=
  (toSpec_frame_extras proj p name hoptional).trans (requiredSpec_frame proj p name hrequired)

end Frame

theorem name_toSpec (p : LockedPackage) (name : String) :
    (p.toSpec name).name = PackageName.of name :=
  toSpec_frame PackageSpec.name p name (fun _ _ _ => rfl) fun _ _ _ _ => rfl

theorem platforms_toSpec (p : LockedPackage) (name : String) :
    (p.toSpec name).platforms = SortedSet.ofList (p.platforms.toList.map Platform.of) := by
  rw [toSpec_frame PackageSpec.platforms p name (fun _ _ _ => rfl) fun _ _ _ _ => rfl,
    SortedSet.ofList, List.foldl_map]
  rfl

theorem dependencies_toSpec (p : LockedPackage) (name : String) :
    (p.toSpec name).dependencies =
      SortedMap.ofList (p.dependencies.entries.map fun e => (PackageName.of e.1, e.2)) := by
  rw [toSpec_frame_extras PackageSpec.dependencies p name fun _ _ _ _ => rfl, SortedMap.ofList,
    List.foldl_map]
  exact (List.foldl_hom PackageSpec.dependencies fun _ _ => rfl).symm

theorem extras_toSpec (p : LockedPackage) (name : String) :
    (p.toSpec name).extras = p.extras.entries.foldl (fun extras group =>
      group.2.entries.foldl (fun extras e =>
        addOptional extras (PackageName.of group.1) (PackageName.of e.1) e.2) extras)
      SortedMap.empty := by
  have hbare : (p.requiredSpec name).extras = SortedMap.empty :=
    requiredSpec_frame PackageSpec.extras p name fun _ _ _ => rfl
  rw [toSpec_eq, ← hbare]
  refine (List.foldl_hom PackageSpec.extras fun s group => ?_).symm
  exact List.foldl_hom PackageSpec.extras fun _ _ => rfl

/-- A group that is filled with one dependency after another is there with all of them. -/
theorem foldl_addOptional {extras : SortedMap PackageName Dependencies} {group : PackageName}
    (hnew : extras.get? group = none) {es : List (PackageName × Constraint)} (hne : es ≠ []) :
    es.foldl (fun extras e => addOptional extras group e.1 e.2) extras =
      extras.insert group (SortedMap.ofList es) := by
  induction es using List.reverseRecOn with
  | nil => contradiction
  | append_singleton es e ih =>
    rw [List.foldl_append, SortedMap.ofList_append_singleton]
    rcases List.eq_nil_or_concat es with rfl | hes
    · simp [addOptional, hnew, SortedMap.ofList]
    · have hne : es ≠ [] := by
        rintro rfl
        simp at hes
      rw [ih hne]
      simp [addOptional, SortedMap.get?_insert, Std.ReflOrd.compare_self, SortedMap.insert_insert]

/-- Groups that are restored one after another are all there, provided that none is empty. -/
theorem foldl_groups {groups : List (PackageName × Dependencies)}
    (hkeys : (groups.map (·.1)).Nodup) (hne : ∀ group ∈ groups, group.2.entries ≠ []) :
    groups.foldl (fun extras group => group.2.entries.foldl (fun extras e =>
      addOptional extras group.1 e.1 e.2) extras) SortedMap.empty = SortedMap.ofList groups := by
  induction groups using List.reverseRecOn with
  | nil => rfl
  | append_singleton groups group ih =>
    rw [List.map_append, List.nodup_append] at hkeys
    obtain ⟨hgroups, -, hapart⟩ := hkeys
    have hnew : (SortedMap.ofList groups).get? group.1 = none :=
      SortedMap.get?_ofList_eq_none hgroups fun hmem => hapart _ hmem _ (by simp) rfl
    rw [List.foldl_append, ih hgroups fun g hg => hne g (List.mem_append_left _ hg),
      SortedMap.ofList_append_singleton, List.foldl_cons, List.foldl_nil,
      foldl_addOptional hnew (hne group (by simp)), SortedMap.ofList_entries]

/-! ### What is kept of a spec -/

theorem entries_lockDependencies (deps : Dependencies) :
    (lockDependencies deps).entries = deps.entries.map fun e => (e.1.text, e.2) :=
  SortedMap.entries_ofList_of_ascending (List.pairwise_map.mpr deps.ascending)

theorem entries_extras_ofSpec (s : PackageSpec) :
    (ofSpec s).extras.entries = s.extras.entries.map fun e => (e.1.text, lockDependencies e.2) :=
  SortedMap.entries_ofList_of_ascending (List.pairwise_map.mpr s.extras.ascending)

theorem toList_platforms_ofSpec (s : PackageSpec) :
    (ofSpec s).platforms.toList = s.platforms.toList.map (·.text) :=
  SortedSet.toList_ofList_of_ascending (List.pairwise_map.mpr s.platforms.ascending_toList)

theorem wellFormed_lockDependencies {deps : Dependencies}
    (h : ∀ e ∈ deps.entries, e.2.WellFormed) :
    ∀ e ∈ (lockDependencies deps).entries, e.2.WellFormed := by
  rw [entries_lockDependencies, List.forall_mem_map]
  exact h

theorem wellFormed_ofSpec {s : PackageSpec} (h : s.WellFormed) : (ofSpec s).WellFormed where
  version := h.version
  runtime := h.runtime
  dependencies := wellFormed_lockDependencies h.dependencies
  extras := by
    rw [entries_extras_ofSpec, List.forall_mem_map]
    exact fun group hgroup => wellFormed_lockDependencies (h.extras group hgroup)

theorem platforms_toSpec_ofSpec (s : PackageSpec) (name : String) :
    ((ofSpec s).toSpec name).platforms = s.platforms := by
  simp only [platforms_toSpec, toList_platforms_ofSpec, List.map_map, Function.comp_def,
    Platform.of_text, List.map_id', SortedSet.ofList_toList]

theorem dependencies_toSpec_ofSpec (s : PackageSpec) (name : String) :
    ((ofSpec s).toSpec name).dependencies = s.dependencies := by
  have hentries : (ofSpec s).dependencies.entries =
      s.dependencies.entries.map fun e => (e.1.text, e.2) := entries_lockDependencies _
  simp only [dependencies_toSpec, hentries, List.map_map, Function.comp_def, PackageName.of_text,
    List.map_id', SortedMap.ofList_entries]

theorem extras_toSpec_ofSpec (s : PackageSpec) (name : String) :
    ((ofSpec s).toSpec name).extras = s.extras := by
  have hgroup : ∀ (extras : SortedMap PackageName Dependencies)
      (group : PackageName × Dependencies),
      (lockDependencies group.2).entries.foldl (fun extras e => addOptional extras
        (PackageName.of group.1.text) (PackageName.of e.1) e.2) extras =
      group.2.entries.foldl (fun extras e => addOptional extras group.1 e.1 e.2) extras := by
    intro extras group
    simp only [entries_lockDependencies, List.foldl_map, PackageName.of_text]
  have hfilled : ∀ group ∈ s.extras.entries, group.2.entries ≠ [] := fun group hmem hnil => by
    have hnonempty := s.extras_nonempty group hmem
    rw [SortedMap.isEmpty, hnil] at hnonempty
    cases hnonempty
  rw [extras_toSpec, entries_extras_ofSpec, List.foldl_map]
  simp only [hgroup]
  rw [foldl_groups s.extras.nodup_keys hfilled, SortedMap.ofList_entries]

/-- A spec is restored from what is kept of it. -/
theorem toSpec_ofSpec (s : PackageSpec) : (ofSpec s).toSpec s.name.text = s := by
  have hframe : ∀ {β : Type} (proj : PackageSpec → β),
      (∀ s n c, proj (s.withDependency n c) = proj s) →
      (∀ s g n c, proj (s.withOptionalDependency g n c) = proj s) →
      proj ((ofSpec s).toSpec s.name.text) = proj ((ofSpec s).bareSpec s.name.text) :=
    fun proj => toSpec_frame proj (ofSpec s) s.name.text
  refine PackageSpec.ext ?_ ?_ ?_ ?_ ?_ ?_ ?_
  · rw [hframe PackageSpec.name (fun _ _ _ => rfl) fun _ _ _ _ => rfl]
    exact PackageName.of_text s.name
  · exact hframe PackageSpec.version (fun _ _ _ => rfl) fun _ _ _ _ => rfl
  · exact hframe PackageSpec.runtime (fun _ _ _ => rfl) fun _ _ _ _ => rfl
  · exact platforms_toSpec_ofSpec s _
  · exact dependencies_toSpec_ofSpec s _
  · exact extras_toSpec_ofSpec s _
  · exact hframe PackageSpec.prerelease (fun _ _ _ => rfl) fun _ _ _ _ => rfl

end Depsolve.LockedPackage
