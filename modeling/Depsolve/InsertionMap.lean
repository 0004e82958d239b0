/-!
Finite maps whose entries are listed in the order in which their keys first came.
-/

namespace Depsolve

/-- A finite map in order of first insertion; no key is listed twice. -/
structure InsertionMap (κ : Type) (α : Type) where
  entries : List (κ × α)
  distinct : (entries.map (·.1)).Nodup

namespace InsertionMap

variable {κ α β : Type}

instance [DecidableEq κ] [DecidableEq α] : DecidableEq (InsertionMap κ α) := fun m n =>
  if h : m.entries = n.entries then
    isTrue (by cases m; cases n; cases h; rfl)
  else
    isFalse fun e => h (congrArg entries e)

theorem ext {m n : InsertionMap κ α} (h : m.entries = n.entries) : m = n := by
  cases m; cases n; cases h; rfl

/-- The map with no entry. -/
def empty : InsertionMap κ α := ⟨[], .nil⟩

instance : EmptyCollection (InsertionMap κ α) := ⟨empty⟩
instance : Inhabited (InsertionMap κ α) := ⟨empty⟩

/-- The keys in order of first insertion. -/
def keys (m : InsertionMap κ α) : List κ := m.entries.map (·.1)

/-- The number of entries. -/
def size (m : InsertionMap κ α) : Nat := m.entries.length

variable [DecidableEq κ]

/-- The value under a key. -/
def get? (m : InsertionMap κ α) (k : κ) : Option α :=
  (m.entries.find? (·.1 = k)).map (·.2)

/-- Whether there is a value under a key. -/
def contains (m : InsertionMap κ α) (k : κ) : Bool := m.entries.any (·.1 = k)

/-- The entries with `v` under `k`: a known key keeps its place, a new one comes last. -/
def insertEntry (k : κ) (v : α) : List (κ × α) → List (κ × α)
  | [] => [(k, v)]
  | (k', v') :: rest => if k' = k then (k', v) :: rest else (k', v') :: insertEntry k v rest

theorem keys_insertEntry (k : κ) (v : α) (es : List (κ × α)) :
    (insertEntry k v es).map (·.1) =
      if k ∈ es.map (·.1) then es.map (·.1) else es.map (·.1) ++ [k] := by
  induction es with
  | nil => simp [insertEntry]
  | cons head rest ih =>
    obtain ⟨k', v'⟩ := head
    unfold insertEntry
    by_cases h : k' = k
    · simp [h]
    · have h' : k ≠ k' := fun e => h e.symm
      simp only [if_neg h, List.map_cons, ih, List.mem_cons, h', false_or]
      split <;> simp

/-- The map with `v` under `k`. -/
def insert (m : InsertionMap κ α) (k : κ) (v : α) : InsertionMap κ α where
  entries := insertEntry k v m.entries
  distinct := by
    rw [keys_insertEntry]
    split
    · exact m.distinct
    · rename_i h
      exact List.nodup_append.mpr
        ⟨m.distinct, by simp, fun a ha b hb e => h (by simp_all)⟩

theorem contains_iff {m : InsertionMap κ α} {k : κ} : m.contains k = true ↔ k ∈ m.keys := by
  simp [contains, keys]

theorem get?_eq_none_iff {m : InsertionMap κ α} {k : κ} :
    m.get? k = none ↔ m.contains k = false := by
  simp [get?, contains]

@[simp] theorem contains_insert (m : InsertionMap κ α) (k k' : κ) (v : α) :
    (m.insert k v).contains k' = (decide (k' = k) || m.contains k') := by
  rw [Bool.eq_iff_iff, Bool.or_eq_true, contains_iff, contains_iff, decide_eq_true_iff]
  simp only [keys, insert, keys_insertEntry]
  split
  · rename_i h
    exact ⟨.inr, fun h' => h'.elim (fun e => e ▸ h) id⟩
  · simp [or_comm]

/-- The map of the entries, where a later entry replaces the value of an earlier one. -/
def ofList (es : List (κ × α)) : InsertionMap κ α :=
  es.foldl (fun m e => m.insert e.1 e.2) empty

/-- The map with the same keys, where each value is made from its key and the old one. -/
def mapEntries (f : κ → α → β) (m : InsertionMap κ α) : InsertionMap κ β where
  entries := m.entries.map fun e => (e.1, f e.1 e.2)
  distinct := by simpa [List.map_map, Function.comp_def] using m.distinct

/-- Two maps hold the same values under the same keys, in whatever order. -/
def sameEntries [DecidableEq α] (m n : InsertionMap κ α) : Bool :=
  m.size == n.size && m.entries.all fun e => n.get? e.1 == some e.2

end InsertionMap

end Depsolve
