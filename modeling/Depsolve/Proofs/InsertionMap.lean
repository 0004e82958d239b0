import Depsolve.InsertionMap
import Mathlib.Data.List.Induction

/-!
Look-ups in maps that keep the order of insertion.

* `get?_eq_some_iff`: a look-up answers with the entry under the key, and there is at most
  one.
* `get?_insert`: an insertion changes the answer for its own key only.
* `entries_insert_of_new`: a new key goes to the end and moves nothing.
* `get?_mapEntries`: a look-up in a map made of another goes through that map.
-/

namespace Depsolve.InsertionMap

variable {κ α : Type} [DecidableEq κ]

/-! ### Look-ups and entries -/

/-- No key is listed twice, so the entry under a key is the one that a look-up finds. -/
theorem get?_eq_some_iff {m : InsertionMap κ α} {k : κ} {v : α} :
    m.get? k = some v ↔ (k, v) ∈ m.entries := by
  obtain ⟨entries, distinct⟩ := m
  simp only [get?]
  induction entries with
  | nil => simp
  | cons head rest ih =>
    obtain ⟨k', v'⟩ := head
    obtain ⟨hnew, hrest⟩ := List.nodup_cons.mp distinct
    by_cases h : k' = k
    · subst h
      have hv : (k', v) ∉ rest := fun hmem => hnew (List.mem_map.mpr ⟨_, hmem, rfl⟩)
      simp [hv, eq_comm]
    · have h' : k ≠ k' := fun e => h e.symm
      simp only [List.find?_cons, h, decide_false, List.mem_cons, Prod.mk.injEq, h', false_and,
        false_or]
      exact ih hrest

/-- Look-ups do not depend on the order of the entries. -/
theorem get?_of_perm {m n : InsertionMap κ α} (h : m.entries.Perm n.entries) (k : κ) :
    m.get? k = n.get? k := by
  refine Option.ext fun v => ?_
  rw [get?_eq_some_iff, get?_eq_some_iff]
  exact h.mem_iff

omit [DecidableEq κ] in
/-- Entries that are listed in another order are those of a map as well. -/
theorem exists_entries_of_perm {m : InsertionMap κ α} {es : List (κ × α)}
    (h : es.Perm m.entries) : ∃ n : InsertionMap κ α, n.entries = es :=
  ⟨⟨es, (h.map _).nodup_iff.mpr m.distinct⟩, rfl⟩

theorem mem_keys_iff {m : InsertionMap κ α} {k : κ} :
    k ∈ m.keys ↔ ∃ v, m.get? k = some v := by
  constructor
  · intro hk
    obtain ⟨⟨k', v⟩, hmem, rfl⟩ := List.mem_map.mp hk
    exact ⟨v, get?_eq_some_iff.mpr hmem⟩
  · rintro ⟨v, hv⟩
    exact List.mem_map.mpr ⟨(k, v), get?_eq_some_iff.mp hv, rfl⟩

theorem mem_keys_of_get? {m : InsertionMap κ α} {k : κ} {v : α} (h : m.get? k = some v) :
    k ∈ m.keys :=
  mem_keys_iff.mpr ⟨v, h⟩

theorem not_mem_keys_of_get? {m : InsertionMap κ α} {k : κ} (h : m.get? k = none) :
    k ∉ m.keys := by
  intro hk
  obtain ⟨v, hv⟩ := mem_keys_iff.mp hk
  rw [h] at hv
  cases hv

/-! ### Insertion -/

theorem insertEntry_of_new {k : κ} {v : α} {es : List (κ × α)} (h : k ∉ es.map (·.1)) :
    insertEntry k v es = es ++ [(k, v)] := by
  induction es with
  | nil => rfl
  | cons head rest ih =>
    obtain ⟨k', v'⟩ := head
    rw [List.map_cons, List.mem_cons, not_or] at h
    have hne : k' ≠ k := fun e => h.1 e.symm
    rw [insertEntry, if_neg hne, ih h.2, List.cons_append]

/-- A new key goes to the end. -/
theorem entries_insert_of_new {m : InsertionMap κ α} {k : κ} (h : m.get? k = none) (v : α) :
    (m.insert k v).entries = m.entries ++ [(k, v)] :=
  insertEntry_of_new (not_mem_keys_of_get? h)

theorem find?_insertEntry (k k' : κ) (v : α) (es : List (κ × α)) :
    ((insertEntry k v es).find? (·.1 = k')).map (·.2) =
      if k' = k then some v else (es.find? (·.1 = k')).map (·.2) := by
  induction es with
  | nil =>
    by_cases h : k' = k
    · simp [insertEntry, h]
    · have h' : k ≠ k' := fun e => h e.symm
      simp [insertEntry, h, h']
  | cons head rest ih =>
    obtain ⟨k₀, v₀⟩ := head
    rw [insertEntry]
    by_cases h₀ : k₀ = k
    · subst h₀
      by_cases h : k₀ = k'
      · simp [h]
      · have h' : k' ≠ k₀ := fun e => h e.symm
        simp [h, h']
    · rw [if_neg h₀]
      by_cases h : k₀ = k'
      · subst h
        simp [h₀]
      · simp only [List.find?_cons, h, decide_false]
        exact ih

/-- An insertion changes the answer for its own key only. -/
theorem get?_insert (m : InsertionMap κ α) (k k' : κ) (v : α) :
    (m.insert k v).get? k' = if k' = k then some v else m.get? k' :=
  find?_insertEntry k k' v m.entries

/-- What was there before the insertion of a new key is there after it. -/
theorem get?_insert_of_some {m : InsertionMap κ α} {k k' : κ} {v v' : α} (h : m.get? k = none)
    (h' : m.get? k' = some v') : (m.insert k v).get? k' = some v' := by
  have hne : k' ≠ k := by
    rintro rfl
    rw [h] at h'
    cases h'
  rw [get?_insert, if_neg hne, h']

/-- A list without repeated keys is the list of entries. -/
theorem entries_ofList_of_nodup {es : List (κ × α)} (h : (es.map (·.1)).Nodup) :
    (ofList es).entries = es := by
  induction es using List.reverseRecOn with
  | nil => rfl
  | append_singleton es e ih =>
    rw [List.map_append, List.nodup_append] at h
    obtain ⟨hes, -, hapart⟩ := h
    have hnew : e.1 ∉ es.map (·.1) := fun hmem => hapart _ hmem _ (by simp) rfl
    rw [ofList, List.foldl_append]
    exact (congrArg (insertEntry e.1 e.2) (ih hes)).trans (insertEntry_of_new hnew)

/-! ### Maps made of maps -/

omit [DecidableEq κ] in
theorem keys_mapEntries {β : Type} (f : κ → α → β) (m : InsertionMap κ α) :
    (m.mapEntries f).keys = m.keys := by
  simp [keys, mapEntries, Function.comp_def]

theorem get?_mapEntries {β : Type} (f : κ → α → β) (m : InsertionMap κ α) (k : κ) :
    (m.mapEntries f).get? k = (m.get? k).map (f k) := by
  refine Option.ext fun v => ?_
  rw [get?_eq_some_iff, Option.map_eq_some_iff]
  simp only [mapEntries, List.mem_map, Prod.mk.injEq, get?_eq_some_iff]
  constructor
  · rintro ⟨e, he, rfl, hv⟩
    exact ⟨e.2, he, hv⟩
  · rintro ⟨a, ha, hv⟩
    exact ⟨(k, a), ha, rfl, hv⟩

end Depsolve.InsertionMap
