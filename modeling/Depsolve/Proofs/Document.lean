import Depsolve.Document.Records
import Depsolve.Proofs.Constraint.Text
import Depsolve.Proofs.InsertionMap
import Depsolve.Proofs.Json.Read
import Depsolve.Proofs.SortedMap

/-!
Values decoded from the documents that they are written as.

A document has the entries of each object in the order of their keys, so a record finds each
of its fields wherever it was written (`Layout.required_written`, `Layout.optional_written`),
and a map comes back with its keys in order (`Decoder.entries_document`).
-/

namespace Depsolve

variable {α : Type} {es : List (String × Datum)} {name : String} {d : Datum}

/-! ### Documents -/

namespace Json

theorem document_array (items : List Json) :
    (array items).document = .sequence true (items.map document) := by
  rw [document, toDatum, itemData_eq_map]

theorem document_object (entries : List (String × Json)) :
    (object entries).document =
      .mapping (SortedMap.ofList (entries.map fun e => (e.1, e.2.document))).entries := by
  rw [document, toDatum, entryData_eq_map]

end Json

/-! ### Records -/

/-- The data of a record that is written with these fields. -/
def RecordData.written (fields : List (String × Json)) : RecordData :=
  .named (SortedMap.ofList (fields.map fun e => (e.1, e.2.document))).entries

namespace Layout

theorem find?_entries_ofList (hkeys : (es.map (·.1)).Nodup) (hmem : (name, d) ∈ es) :
    (SortedMap.ofList es).entries.find? (·.1 = name) = some (name, d) := by
  have hentry : (name, d) ∈ (SortedMap.ofList es).entries :=
    (SortedMap.mem_entries_ofList hkeys).mpr hmem
  have hget : (⟨_, (SortedMap.ofList es).nodup_keys⟩ : InsertionMap String Datum).get? name =
      some d := InsertionMap.get?_eq_some_iff.mpr hentry
  obtain ⟨e, he, rfl⟩ := Option.map_eq_some_iff.mp hget
  rw [he]
  have hname : e.1 = name := by simpa using List.find?_some he
  rw [← hname]

variable {l : Layout} {fields : List (String × Json)} {j : Json} {f : Decoder α} {a : α}

theorem find?_written (hkeys : (fields.map (·.1)).Nodup) (hmem : (name, j) ∈ fields) :
    (SortedMap.ofList (fields.map fun e => (e.1, e.2.document))).entries.find? (·.1 = name) =
      some (name, j.document) := by
  refine find?_entries_ofList ?_ (List.mem_map_of_mem (f := fun e => (e.1, e.2.document)) hmem)
  rwa [List.map_map]

/-- A field that has to be there is read wherever it was written. -/
theorem required_written (hkeys : (fields.map (·.1)).Nodup) (hmem : (name, j) ∈ fields)
    (hread : f j.document = .ok a) : l.required (.written fields) name f = .ok a := by
  simp only [required, field, RecordData.written, find?_written hkeys hmem, hread]
  rfl

/-- A field that may be null is read wherever it was written. -/
theorem optional_written {a : Option α} (hkeys : (fields.map (·.1)).Nodup)
    (hmem : (name, j) ∈ fields) (hread : Decoder.orNull f j.document = .ok a) :
    l.optional (.written fields) name f = .ok a := by
  simp only [optional, field, RecordData.written, find?_written hkeys hmem, hread]
  rfl

/-- A document gives no field twice. -/
theorem repeated?_entries (m : SortedMap String Datum) : l.repeated? m.entries = none := by
  rw [repeated?, List.find?_eq_none]
  intro name _
  have hcount := List.nodup_iff_count.mp m.nodup_keys name
  have hcompare : (fun e : String × Datum => decide (e.1 = name)) = (· == name) ∘ (·.1) :=
    funext fun e => (beq_eq_decide ..).symm
  rw [List.count, List.countP_map, ← hcompare] at hcount
  simpa using hcount

/-- A record is decoded from its fields. -/
theorem decode_document (fields : List (String × Json)) {build : RecordData → Fields α}
    (hbuild : build (.written fields) = .ok a) :
    l.decode build (Json.object fields).document = .ok a := by
  rw [Json.document_object]
  simp only [decode, Decoder.located, repeated?_entries]
  exact congrArg Fields.toExcept hbuild

end Layout

/-! ### Texts, sequences and maps -/

namespace Decoder

variable {f : Decoder α} {write : α → Json}

theorem spelled_text {parse : String → Except String α} {s : String} {a : α}
    (h : parse s = .ok a) : spelled parse (.text s) = .ok a := by
  simp only [spelled, located, text, bind, Except.bind, h]

theorem list_document {xs : List α} (hread : ∀ x ∈ xs, f (write x).document = .ok x) :
    list f (Json.array (xs.map write)).document = .ok xs := by
  rw [Json.document_array]
  have hitems : ((xs.map write).map Json.document).mapM f = .ok xs := by
    rw [mapM_eq_ok, List.forall₂_map_left_iff, List.forall₂_map_left_iff, List.forall₂_same]
    exact hread
  exact hitems

/-- Entries come back in the order of their keys. -/
theorem entries_document {es : List (String × α)} (hkeys : (es.map (·.1)).Nodup)
    (hread : ∀ e ∈ es, f (write e.2).document = .ok e.2) :
    entries f (Json.object (es.map fun e => (e.1, write e.2))).document =
      .ok (SortedMap.ofList es).entries := by
  have hwritten : (SortedMap.ofList ((es.map fun e => (e.1, write e.2)).map
        fun e => (e.1, e.2.document))).entries =
      (SortedMap.ofList es).entries.map fun e => (e.1, (write e.2).document) := by
    rw [List.map_map]
    exact SortedMap.entries_ofList_map (fun a => (write a).document) es
  have hentries : ((SortedMap.ofList es).entries.map fun e => (e.1, (write e.2).document)).mapM
      (fun e : String × Datum => (f e.2).map (e.1, ·)) = .ok (SortedMap.ofList es).entries := by
    rw [mapM_eq_ok, List.forall₂_map_left_iff, List.forall₂_same]
    intro e he
    exact congrArg (Except.map (e.1, ·)) (hread e ((SortedMap.mem_entries_ofList hkeys).mp he))
  rw [Json.document_object, hwritten]
  exact hentries

end Decoder

/-! ### Versions and constraints -/

theorem Version.WellFormed.decode_document {v : Version} (h : v.WellFormed) :
    decode v.toJson.document = .ok v :=
  Decoder.spelled_text (by rw [h.parse_render]; rfl)

theorem Constraint.WellFormed.decode_document {c : Constraint} (h : c.WellFormed) :
    decode c.toJson.document = .ok c :=
  Decoder.spelled_text (by rw [h.parse_render]; rfl)

end Depsolve
