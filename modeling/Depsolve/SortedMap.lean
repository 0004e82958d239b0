/-!
Finite maps whose entries are listed in ascending key order.

Keys are compared by their `Ord` instance. Two keys that compare equal share one entry
even when they are written differently; the entry then keeps the key that came first and
the value that came last. Since the entries are strictly ascending, a map over keys
with a lawful equality is determined by what its look-ups answer.
-/

namespace Depsolve

/-- A finite map with strictly ascending keys. -/
structure SortedMap (κ : Type) [Ord κ] (α : Type) where
  entries : List (κ × α)
  ascending : entries.Pairwise fun a b => compare a.1 b.1 = .lt

namespace SortedMap

variable {κ : Type} [Ord κ] {α β : Type}

instance [DecidableEq κ] [DecidableEq α] : DecidableEq (SortedMap κ α) := fun m n =>
  if h : m.entries = n.entries then
    isTrue (by cases m; cases n; cases h; rfl)
  else
    isFalse fun e => h (congrArg entries e)

theorem ext {m n : SortedMap κ α} (h : m.entries = n.entries) : m = n := by
  cases m; cases n; cases h; rfl

/-- The map with no entry. -/
def empty : SortedMap κ α := ⟨[], .nil⟩

instance : EmptyCollection (SortedMap κ α) := ⟨empty⟩
instance : Inhabited (SortedMap κ α) := ⟨empty⟩

/-- The keys in ascending order. -/
def keys (m : SortedMap κ α) : List κ := m.entries.map (·.1)

/-- The values in the order of their keys. -/
def values (m : SortedMap κ α) : List α := m.entries.map (·.2)

/-- The number of entries. -/
def size (m : SortedMap κ α) : Nat := m.entries.length

/-- Whether there is no entry. -/
def isEmpty (m : SortedMap κ α) : Bool := m.entries.isEmpty

/-- The value under a key. -/
def get? (m : SortedMap κ α) (k : κ) : Option α :=
  (m.entries.find? fun e => compare k e.1 == .eq).map (·.2)

/-- Whether there is a value under a key. -/
def contains (m : SortedMap κ α) (k : κ) : Bool := (m.get? k).isSome

theorem mem_keys_of_get? [Std.LawfulEqOrd κ] {m : SortedMap κ α} {k : κ} {v : α}
    (h : m.get? k = some v) : k ∈ m.keys := by
  obtain ⟨e, he, _⟩ := Option.map_eq_some_iff.mp h
  have heq : k = e.1 := Std.LawfulEqOrd.eq_of_compare (by simpa using List.find?_some he)
  exact List.mem_map.mpr ⟨e, List.mem_of_find?_eq_some he, heq.symm⟩

/-- The entries with `v` under `k`: a new entry goes to its place in the order, and the
value under an equal key is exchanged. -/
def insertEntry (k : κ) (v : α) : List (κ × α) → List (κ × α)
  | [] => [(k, v)]
  | (k', v') :: rest =>
    match compare k k' with
    | .lt => (k, v) :: (k', v') :: rest
    | .eq => (k', v) :: rest
    | .gt => (k', v') :: insertEntry k v rest

theorem mem_insertEntry {k : κ} {v : α} {es : List (κ × α)} {e : κ × α}
    (h : e ∈ insertEntry k v es) : e.1 = k ∨ ∃ e' ∈ es, e'.1 = e.1 := by
  induction es with
  | nil => simp_all [insertEntry]
  | cons head rest ih =>
    obtain ⟨k', v'⟩ := head
    unfold insertEntry at h
    split at h
    · rcases List.mem_cons.mp h with rfl | h
      · exact .inl rfl
      · exact .inr ⟨e, h, rfl⟩
    · rcases List.mem_cons.mp h with rfl | h
      · exact .inr ⟨(k', v'), by simp, rfl⟩
      · exact .inr ⟨e, by simp [h], rfl⟩
    · rcases List.mem_cons.mp h with rfl | h
      · exact .inr ⟨(k', v'), by simp, rfl⟩
      · rcases ih h with h | ⟨e', he', h⟩
        · exact .inl h
        · exact .inr ⟨e', by simp [he'], h⟩

theorem mem_insertEntry_value {k : κ} {v : α} {es : List (κ × α)} {e : κ × α}
    (h : e ∈ insertEntry k v es) : e.2 = v ∨ e ∈ es := by
  induction es with
  | nil => simp_all [insertEntry]
  | cons head rest ih =>
    obtain ⟨k', v'⟩ := head
    unfold insertEntry at h
    split at h
    · rcases List.mem_cons.mp h with rfl | h
      · exact .inl rfl
      · exact .inr h
    · rcases List.mem_cons.mp h with rfl | h
      · exact .inl rfl
      · exact .inr (by simp [h])
    · rcases List.mem_cons.mp h with rfl | h
      · exact .inr (by simp)
      · rcases ih h with h | h
        · exact .inl h
        · exact .inr (by simp [h])

theorem ascending_insertEntry [Std.TransOrd κ] (k : κ) (v : α) {es : List (κ × α)}
    (h : es.Pairwise fun a b => compare a.1 b.1 = .lt) :
    (insertEntry k v es).Pairwise fun a b => compare a.1 b.1 = .lt := by
  induction es with
  | nil => simp [insertEntry]
  | cons head rest ih =>
    obtain ⟨k', v'⟩ := head
    obtain ⟨hhead, hrest⟩ := List.pairwise_cons.mp h
    unfold insertEntry
    split
    · rename_i hlt
      refine List.pairwise_cons.mpr ⟨fun e he => ?_, h⟩
      rcases List.mem_cons.mp he with rfl | he
      · exact hlt
      · exact Std.TransCmp.lt_trans hlt (hhead e he)
    · exact List.pairwise_cons.mpr ⟨hhead, hrest⟩
    · rename_i hgt
      refine List.pairwise_cons.mpr ⟨fun e he => ?_, ih hrest⟩
      rcases mem_insertEntry he with heq | ⟨e', he', heq⟩
      · rw [heq, Std.OrientedOrd.eq_swap, hgt]
        rfl
      · rw [← heq]
        exact hhead e' he'

variable [Std.TransOrd κ]

/-- The map with `v` under `k`; an equal key keeps its place and spelling. -/
def insert (m : SortedMap κ α) (k : κ) (v : α) : SortedMap κ α :=
  ⟨insertEntry k v m.entries, ascending_insertEntry k v m.ascending⟩

/-- The map with `v` under `k` unless there is a value already. -/
def insertIfNew (m : SortedMap κ α) (k : κ) (v : α) : SortedMap κ α :=
  if m.contains k then m else m.insert k v

theorem isEmpty_insert (m : SortedMap κ α) (k : κ) (v : α) : (m.insert k v).isEmpty = false := by
  simp only [insert, isEmpty]
  cases m.entries with
  | nil => rfl
  | cons e es =>
    unfold insertEntry
    split <;> rfl

/-- The map without the entry under `k`. -/
def erase (m : SortedMap κ α) (k : κ) : SortedMap κ α :=
  ⟨m.entries.filter fun e => compare k e.1 != .eq, m.ascending.filter _⟩

/-- The map of the entries, where a later entry replaces the value of an earlier one. -/
def ofList (es : List (κ × α)) : SortedMap κ α :=
  es.foldl (fun m e => m.insert e.1 e.2) empty

end SortedMap

/-- A finite set, listed in ascending order. -/
abbrev SortedSet (κ : Type) [Ord κ] := SortedMap κ Unit

namespace SortedSet

variable {κ : Type} [Ord κ] [Std.TransOrd κ]

/-- The elements in ascending order. -/
def toList (s : SortedSet κ) : List κ := s.keys

/-- The set with one more element. -/
def add (s : SortedSet κ) (k : κ) : SortedSet κ := SortedMap.insert s k ()

/-- The set of the listed elements. -/
def ofList (ks : List κ) : SortedSet κ := ks.foldl add SortedMap.empty

/-- The elements of both sets. -/
def union (s t : SortedSet κ) : SortedSet κ := t.toList.foldl add s

end SortedSet

end Depsolve
