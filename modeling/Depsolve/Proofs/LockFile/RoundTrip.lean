import Depsolve.Proofs.LockFile.Package
import Depsolve.Proofs.LockFile.Verify
import Depsolve.Proofs.Resolver.Accounted

/-!
What is locked comes back.

* `parse_render`: a consistent lock is read off its text, with its packages in the order of
  their names.
* `Resolution.Ordered` is what a resolution has to be for its lock to be consistent; every
  resolution over a registry that was filled by calls is so.
* `lock_restores_resolution` puts both together: a resolution without conflicts comes back
  from the text of its lock.
-/

namespace Depsolve

/-! ### Maps in the order of their keys -/

namespace InsertionMap

variable {α : Type}

/-- The map with its entries in the order of their keys. -/
def sorted (m : InsertionMap String α) : InsertionMap String α :=
  ⟨(SortedMap.ofList m.entries).entries, SortedMap.nodup_keys _⟩

theorem get?_sorted (m : InsertionMap String α) (k : String) : m.sorted.get? k = m.get? k := by
  refine Option.ext fun v => ?_
  rw [get?_eq_some_iff, get?_eq_some_iff]
  exact SortedMap.mem_entries_ofList m.distinct

theorem mem_keys_sorted {m : InsertionMap String α} {k : String} :
    k ∈ m.sorted.keys ↔ k ∈ m.keys := by
  simp only [mem_keys_iff, get?_sorted]

end InsertionMap

namespace LockFile

variable {l : LockFile}

/-! ### The written form -/

/-- The lock with its packages in the order of their names. -/
def sorted (l : LockFile) : LockFile := { l with packages := l.packages.sorted }

theorem Consistent.sorted (h : l.Consistent) : l.sorted.Consistent where
  format := h.format
  normal name hname := h.normal name (InsertionMap.mem_keys_sorted.mp hname)
  nodup := h.nodup
  mem name := (h.mem name).trans InsertionMap.mem_keys_sorted.symm

/-- The fields that a lock is written with. -/
def fields (l : LockFile) : List (String × Json) :=
  [("format_version", .text l.formatVersion),
    ("runtime_version", optionalText l.runtime), ("platform_version", optionalText l.platform),
    ("packages", .object (l.packages.entries.map fun e => (e.1, e.2.toJson))),
    ("installation_order", .array (l.order.map .text))]

theorem nodup_fields (l : LockFile) : (l.fields.map (·.1)).Nodup := by
  simp [fields]

theorem decode_optionalText (s : Option String) :
    Decoder.orNull Decoder.text (optionalText s).document = .ok s := by
  cases s with
  | none => rfl
  | some s => rfl

/-- A lock is decoded from its document, with its packages in the order of their names. -/
theorem decode_document (h : ∀ e ∈ l.packages.entries, e.2.WellFormed) :
    decode l.toJson.document = .ok l.sorted := by
  have hformat : layout.required (.written l.fields) "format_version" Decoder.text =
      .ok l.formatVersion :=
    Layout.required_written l.nodup_fields (j := .text l.formatVersion) (by simp [fields]) rfl
  have hruntime : layout.optional (.written l.fields) "runtime_version" Decoder.text =
      .ok l.runtime :=
    Layout.optional_written l.nodup_fields (j := optionalText l.runtime) (by simp [fields])
      (decode_optionalText _)
  have hplatform : layout.optional (.written l.fields) "platform_version" Decoder.text =
      .ok l.platform :=
    Layout.optional_written l.nodup_fields (j := optionalText l.platform) (by simp [fields])
      (decode_optionalText _)
  have hpackages : layout.required (.written l.fields) "packages"
      (fun d => (Decoder.entries LockedPackage.decode d).map InsertionMap.ofList) =
        .ok l.packages.sorted := by
    refine Layout.required_written l.nodup_fields
      (j := .object (l.packages.entries.map fun e => (e.1, e.2.toJson))) (by simp [fields]) ?_
    rw [Decoder.entries_document l.packages.distinct fun e he => (h e he).decode_document]
    exact congrArg Except.ok (InsertionMap.ext
      (InsertionMap.entries_ofList_of_nodup (SortedMap.nodup_keys _)))
  have horder : layout.required (.written l.fields) "installation_order"
      (Decoder.list Decoder.text) = .ok l.order :=
    Layout.required_written l.nodup_fields (j := .array (l.order.map .text)) (by simp [fields])
      (Decoder.list_document fun _ _ => rfl)
  refine Layout.decode_document l.fields ?_
  rw [hformat, hruntime, hplatform, hpackages, horder]
  rfl

/-- The document of a lock gives its format. -/
theorem formatOf?_document (l : LockFile) : formatOf? l.toJson.document = some l.formatVersion := by
  have hmem : ("format_version", Json.text l.formatVersion) ∈ l.fields := by simp [fields]
  have hdocument : l.toJson.document =
      .mapping (SortedMap.ofList (l.fields.map fun e => (e.1, e.2.document))).entries :=
    Json.document_object l.fields
  rw [hdocument, formatOf?, Layout.find?_written l.nodup_fields hmem]
  rfl

theorem within_dependenciesJson (deps : LockedDependencies) (room : Nat) :
    Json.Within (room + 1) (LockedPackage.dependenciesJson deps) :=
  .object (List.forall_mem_map.mpr fun _ _ => .text _)

theorem within_packageJson (p : LockedPackage) (room : Nat) : Json.Within (room + 3) p.toJson := by
  refine .object ?_
  simp only [List.forall_mem_cons]
  refine ⟨.text _, .text _, .array (List.forall_mem_map.mpr fun _ _ => .text _),
    within_dependenciesJson _ _, .object (List.forall_mem_map.mpr fun _ _ =>
      within_dependenciesJson _ _), .bool _, List.forall_mem_nil _⟩

/-- Nothing in a lock stands deeper than a document may be. -/
theorem within_toJson (l : LockFile) : Json.Within Json.maxDepth l.toJson := by
  have hoptional : ∀ s, Json.Within 126 (optionalText s) := fun s => by
    cases s with
    | none => exact .null
    | some s => exact .text s
  refine .object ?_
  simp only [List.forall_mem_cons]
  exact ⟨.text _, hoptional _, hoptional _,
    .object (List.forall_mem_map.mpr fun e _ => within_packageJson e.2 _),
    .array (List.forall_mem_map.mpr fun _ _ => .text _), List.forall_mem_nil _⟩

/-- A consistent lock is read off its text, with its packages in the order of their names. -/
theorem parse_render (h : l.Consistent) (hpackages : ∀ e ∈ l.packages.entries, e.2.WellFormed) :
    parse l.render = .ok l.sorted := by
  have hformat : checkFormat l.formatVersion = .ok () := checkFormat_eq_ok.mpr h.format
  have hverify : l.sorted.verify = .ok () := verify_eq_ok.mpr h.sorted
  rw [parse, render, l.within_toJson.readDocument_pretty]
  simp only [formatOf?_document, hformat, decode_document hpackages]
  simp only [bind, Except.bind, hverify]
  rfl

end LockFile

/-! ### Resolutions -/

/-- Every package of a resolution stands under the name of its spec, and the order names each
of them once. -/
structure Resolution.Ordered (R : Resolution) : Prop where
  name : ∀ n spec, R.resolved.get? n = some spec → spec.name.text = n
  nodup : R.order.Nodup
  mem : ∀ n, n ∈ R.order ↔ n ∈ R.resolved.keys

variable {R : Resolution} {r : Resolver} {roots : List Requirement} {context : Context}

theorem Resolver.ordered_resolve (h : r.registry.Indexed) : (r.resolve roots).Ordered where
  name _ _ hn := name_of_resolved h hn
  nodup := by
    obtain ⟨order, -, hfinish, hnodup, -⟩ := (r.reached_afterRoots roots).1.coherent.finish
    rwa [r.resolve_eq_finish, hfinish]
  mem n := by
    obtain ⟨order, -, hfinish, -, hperm, -⟩ := (r.reached_afterRoots roots).1.coherent.finish
    rw [r.resolve_eq_finish, hfinish]
    exact hperm.mem_iff

/-- The specs of an answer were built where those of the registry were. -/
theorem Resolver.built_of_resolved {calls : List Registry.Call}
    (hbuilt : ∀ c ∈ calls, c.spec.Built) {n : String} {spec : PackageSpec}
    (hn : (((new context).after calls).resolve roots).resolved.get? n = some spec) :
    spec.Built := by
  obtain ⟨name, -, hknows⟩ := knows_of_resolved hn
  rw [after_eq] at hknows
  obtain ⟨c, hc, rfl⟩ := Registry.exists_call_of_knows hknows
  exact hbuilt c hc

namespace LockFile

/-- The lock of a resolution, whether it has conflicts or not. -/
def locked (R : Resolution) (context : Context) : LockFile where
  formatVersion := currentFormat
  runtime := context.runtime.map Version.render
  platform := context.platform
  packages := R.resolved.mapEntries fun _ s => LockedPackage.ofSpec s
  order := R.order

theorem ofResolution_of_isSuccessful (h : R.isSuccessful = true) :
    ofResolution R context = .ok (locked R context) := if_pos h

theorem keys_packages_locked (R : Resolution) (context : Context) :
    (locked R context).packages.keys = R.resolved.keys :=
  InsertionMap.keys_mapEntries _ _

theorem isKnownFormat_currentFormat : isKnownFormat currentFormat = true := by decide +kernel

theorem consistent_locked (h : R.Ordered) : (locked R context).Consistent where
  format := isKnownFormat_currentFormat
  normal n hn := by
    rw [keys_packages_locked, InsertionMap.mem_keys_iff] at hn
    obtain ⟨spec, hspec⟩ := hn
    rw [← h.name n spec hspec, spec.name.normal]
  nodup := h.nodup
  mem n := by
    rw [keys_packages_locked]
    exact h.mem n

theorem wellFormed_locked (h : ∀ n spec, R.resolved.get? n = some spec → spec.WellFormed) :
    ∀ e ∈ (locked R context).packages.entries, e.2.WellFormed := by
  simp only [locked, InsertionMap.mapEntries, List.forall_mem_map]
  intro e he
  exact LockedPackage.wellFormed_ofSpec (h e.1 e.2 (InsertionMap.get?_eq_some_iff.mpr he))

/-- A lock that was put in order restores the spec under each name. -/
theorem get?_toResolution_sorted (h : R.Ordered) (n : String) :
    (locked R context).sorted.toResolution.resolved.get? n = R.resolved.get? n := by
  simp only [toResolution, sorted, locked, InsertionMap.get?_mapEntries, InsertionMap.get?_sorted,
    Option.map_map]
  cases hspec : R.resolved.get? n with
  | none => rfl
  | some spec =>
    rw [Option.map_some, ← h.name n spec hspec]
    exact congrArg some (LockedPackage.toSpec_ofSpec spec)

end LockFile

/-- A resolution without conflicts over specs that were built from what texts spell comes back
from the text of its lock: the lock is consistent, it is read off its text, and it restores
every spec under its name and the order of installation. -/
theorem lock_restores_resolution (context : Context) (calls : List Registry.Call)
    (roots : List Requirement) (hbuilt : ∀ c ∈ calls, c.spec.Built)
    (hsuccess : (((Resolver.new context).after calls).resolve roots).isSuccessful = true) :
    ∃ lock,
      LockFile.ofResolution (((Resolver.new context).after calls).resolve roots) context =
        .ok lock ∧
      lock.verify = .ok () ∧
      ∃ read, LockFile.parse lock.render = .ok read ∧
        ∃ back, read.restore = .ok back ∧ back.conflicts = [] ∧
          back.order = (((Resolver.new context).after calls).resolve roots).order ∧
          ∀ name, back.resolved.get? name =
            (((Resolver.new context).after calls).resolve roots).resolved.get? name := by
  have hordered : (((Resolver.new context).after calls).resolve roots).Ordered :=
    Resolver.ordered_resolve (Resolver.indexed_after context calls)
  have hwell : ∀ n spec, (((Resolver.new context).after calls).resolve roots).resolved.get? n =
      some spec → spec.WellFormed := fun n spec hn =>
    (Resolver.built_of_resolved hbuilt hn).wellFormed
  generalize ((Resolver.new context).after calls).resolve roots = R at hsuccess hordered hwell ⊢
  have hconsistent : (LockFile.locked R context).Consistent := LockFile.consistent_locked hordered
  refine ⟨_, LockFile.ofResolution_of_isSuccessful hsuccess,
    LockFile.verify_eq_ok.mpr hconsistent, _,
    LockFile.parse_render hconsistent (LockFile.wellFormed_locked hwell),
    (LockFile.locked R context).sorted.toResolution, ?_, rfl, rfl,
    LockFile.get?_toResolution_sorted hordered⟩
  rw [LockFile.restore, LockFile.verify_eq_ok.mpr hconsistent.sorted]
  rfl

namespace LockFile

/-- What the constraint `^2.0` spells. -/
def fromTwo : Constraint := ⟨[⟨.caret, ⟨2, some 0, none, none⟩⟩]⟩

/-- A library that is offered as a prerelease. -/
def lib : PackageSpec := PackageSpec.new "lib" ⟨2, 1, 0, some "beta.1", none⟩

/-- An application on one platform that depends on the library and has a group. -/
def app : PackageSpec :=
  (((PackageSpec.new "app" (Version.release 1 0 0)).withDependency "lib"
    Constraint.any).withOptionalDependency "pdf" "renderer" fromTwo).withPlatforms ["2024"]

theorem built_lib : lib.Built := by
  have hversion : Version.parse "2.1.0-beta.1" = .ok ⟨2, 1, 0, some "beta.1", none⟩ := by
    decide +kernel
  exact .new "lib" hversion

theorem built_app : app.Built := by
  have hversion : Version.parse "1.0.0" = .ok (Version.release 1 0 0) := by decide +kernel
  have htwo : Constraint.parse "^2.0" = .ok fromTwo := by decide +kernel
  have hany : Constraint.parse "*" = .ok Constraint.any := by decide +kernel
  exact (((PackageSpec.Built.new "app" hversion).withDependency "lib" hany).withOptionalDependency
    "pdf" "renderer" htwo).withPlatforms ["2024"]

/-- The platform of the application, with prereleases allowed. -/
def onPlatform : Context := ⟨none, some "2024", true, false⟩

/-- The application is resolved with the library installed. -/
def installed : Resolution :=
  ((Resolver.new onPlatform).after [.add app, .install lib]).resolve
    [Requirement.new "app" Constraint.any]

end LockFile

/-- The application and the library come back from their lock. -/
theorem lock_restores_resolution_app :
    ∃ lock, LockFile.ofResolution LockFile.installed LockFile.onPlatform = .ok lock ∧
      lock.verify = .ok () ∧
      ∃ read, LockFile.parse lock.render = .ok read ∧
        ∃ back, read.restore = .ok back ∧ back.conflicts = [] ∧
          back.order = LockFile.installed.order ∧
          ∀ name, back.resolved.get? name = LockFile.installed.resolved.get? name := by
  have hsuccess : LockFile.installed.isSuccessful = true := by cbv
  have hbuilt : ∀ c ∈ [Registry.Call.add LockFile.app, .install LockFile.lib], c.spec.Built := by
    simp [Registry.Call.spec, LockFile.built_app, LockFile.built_lib]
  exact lock_restores_resolution LockFile.onPlatform _ [Requirement.new "app" Constraint.any]
    hbuilt hsuccess

end Depsolve
