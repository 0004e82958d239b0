import Depsolve.SortedMap
import Mathlib.Data.List.Find
import Mathlib.Data.List.Induction
import Mathlib.Data.List.Nodup

/-!
Look-ups in maps with ascending keys.

`get?_insert`, `get?_congr` and `get?_of_mem_entries` hold for every transitive order of the
keys, also for one that does not tell all keys apart. Where keys that compare equal are equal,
a look-up is membership of the entry (`get?_eq_some_iff`), and the two operations are described
by their entries.

A list in ascending order is the list of entries of its map (`entries_ofList_of_ascending`),
so a map is made again from its entries (`ofList_entries`). The map of any list answers with the
last entry under a key (`get?_ofList_map`), and its answers determine a map (`ext_get?`); under an
order that does not tell all keys apart they determine its values (`values_eq_of_get?`).
-/

namespace Depsolve

/-! ### The last entry under a key -/

variable {σ κ α : Type} [DecidableEq κ] {f : σ → κ} {k : κ} {es : List (σ × α)}

/-- The value of the last entry whose key is read as `k`. -/
def lastUnder (f : σ → κ) (k : κ) (es : List (σ × α)) : Option α :=
  (es.reverse.find? fun e => f e.1 = k).map (·.2)

theorem lastUnder_append_singleton (e : σ × α) :
    lastUnder f k (es ++ [e]) = if f e.1 = k then some e.2 else lastUnder f k es := by
  by_cases h : f e.1 = k
  · simp [lastUnder, h]
  · simp [lastUnder, h]

/-- Keys may be read in another way that finds the same entries. -/
theorem lastUnder_congr {κ' : Type} [DecidableEq κ'] {g : σ → κ'} {k' : κ'}
    (h : ∀ e ∈ es, f e.1 = k ↔ g e.1 = k') : lastUnder f k es = lastUnder g k' es := by
  rw [lastUnder, lastUnder]
  refine congrArg _ (List.find?_congr fun e he => ?_)
  exact decide_eq_decide.mpr (h e (List.mem_reverse.mp he))

/-- Where no key is repeated, the last entry under a key is the only one. -/
theorem lastUnder_id_eq_some_iff {es : List (κ × α)} (h : (es.map (·.1)).Nodup) {v : α} :
    lastUnder id k es = some v ↔ (k, v) ∈ es := by
  induction es using List.reverseRecOn with
  | nil => simp [lastUnder]
  | append_singleton es e ih =>
    rw [List.map_append, List.nodup_append] at h
    obtain ⟨hes, -, hapart⟩ := h
    rw [lastUnder_append_singleton, List.mem_append, List.mem_singleton, ← ih hes]
    by_cases hk : id e.1 = k
    · have hnone : lastUnder id k es ≠ some v := fun hv =>
        hapart _ (List.mem_map_of_mem ((ih hes).mp hv)) _ (by simp) hk.symm
      rw [if_pos hk]
      constructor
      · intro hv
        exact .inr (Prod.ext hk.symm (Option.some.inj hv).symm)
      · rintro (hv | rfl)
        · exact absurd hv hnone
        · rfl
    · rw [if_neg hk]
      exact ⟨.inl, fun hv => hv.resolve_right fun he => hk (congrArg Prod.fst he).symm⟩

end Depsolve

namespace Depsolve.SortedMap

variable {κ α : Type} [Ord κ]

/-! ### Look-ups after an operation -/

/-- The answer is the value of an entry under an equal key. -/
theorem exists_entry_of_get? {m : SortedMap κ α} {k : κ} {v : α} (h : m.get? k = some v) :
    ∃ e ∈ m.entries, compare k e.1 = .eq ∧ e.2 = v := by
  obtain ⟨e, he, hv⟩ := Option.map_eq_some_iff.mp h
  exact ⟨e, List.mem_of_find?_eq_some he, by simpa using List.find?_some he, hv⟩

theorem insertEntry_map {β : Type} (f : α → β) (k : κ) (v : α) (es : List (κ × α)) :
    insertEntry k (f v) (es.map fun e => (e.1, f e.2)) =
      (insertEntry k v es).map fun e => (e.1, f e.2) := by
  induction es with
  | nil => rfl
  | cons head rest ih =>
    rw [List.map_cons, insertEntry, insertEntry]
    split
    · rfl
    · rfl
    · rw [ih, List.map_cons]

section Ordered

variable [Std.TransOrd κ]

theorem entries_insert (m : SortedMap κ α) (k : κ) (v : α) :
    (m.insert k v).entries = insertEntry k v m.entries := rfl

theorem find?_insertEntry (k k' : κ) (v : α) (es : List (κ × α)) :
    ((insertEntry k v es).find? fun e => compare k' e.1 == .eq).map (·.2) =
      if compare k' k = .eq then some v
      else (es.find? fun e => compare k' e.1 == .eq).map (·.2) := by
  induction es with
  | nil =>
    by_cases h : compare k' k = .eq
    · simp [insertEntry, h]
    · simp [insertEntry, h]
  | cons head rest ih =>
    obtain ⟨k₀, v₀⟩ := head
    unfold insertEntry
    split
    · by_cases h : compare k' k = .eq
      · simp [h]
      · simp [h]
    · rename_i heq
      have hcongr : compare k' k = compare k' k₀ := Std.TransCmp.congr_right heq
      by_cases h : compare k' k₀ = .eq
      · simp [hcongr, h]
      · simp [hcongr, h]
    · rename_i hgt
      by_cases h : compare k' k₀ = .eq
      · have hne : compare k' k ≠ .eq := by
          intro h'
          rw [← Std.TransCmp.congr_left h', h] at hgt
          cases hgt
        simp [h, hne]
      · have hne : (compare k' k₀ == .eq) = false := beq_eq_false_iff_ne.mpr h
        rw [List.find?_cons, List.find?_cons, hne]
        exact ih

/-- An insertion changes the answer for the keys equal to its own only. -/
theorem get?_insert (m : SortedMap κ α) (k k' : κ) (v : α) :
    (m.insert k v).get? k' = if compare k' k = .eq then some v else m.get? k' :=
  find?_insertEntry k k' v m.entries

/-- Keys that compare equal have the same answer. -/
theorem get?_congr {m : SortedMap κ α} {k k' : κ} (h : compare k k' = .eq) :
    m.get? k = m.get? k' := by
  have hsame : (fun e : κ × α => compare k e.1 == .eq) = fun e => compare k' e.1 == .eq :=
    funext fun e => by rw [Std.TransCmp.congr_left h]
  rw [get?, get?, hsame]

/-- Every entry is the answer for its key. -/
theorem get?_of_mem_entries {m : SortedMap κ α} {e : κ × α} (h : e ∈ m.entries) :
    m.get? e.1 = some e.2 := by
  obtain ⟨entries, ascending⟩ := m
  simp only [get?]
  induction entries with
  | nil => cases h
  | cons head rest ih =>
    obtain ⟨hhead, hrest⟩ := List.pairwise_cons.mp ascending
    rcases List.mem_cons.mp h with rfl | hmem
    · simp [Std.ReflOrd.compare_self]
    · have hgt : compare e.1 head.1 = .gt := Std.OrientedCmp.gt_of_lt (hhead e hmem)
      rw [List.find?_cons_of_neg (by simp [hgt])]
      exact ih hrest hmem

theorem ofList_append_singleton (es : List (κ × α)) (e : κ × α) :
    ofList (es ++ [e]) = (ofList es).insert e.1 e.2 := by
  simp [ofList]

/-- A key above all others goes to the end. -/
theorem insertEntry_of_all_lt {k : κ} {es : List (κ × α)}
    (h : ∀ e ∈ es, compare e.1 k = .lt) (v : α) : insertEntry k v es = es ++ [(k, v)] := by
  induction es with
  | nil => rfl
  | cons head rest ih =>
    obtain ⟨k', v'⟩ := head
    have hgt : compare k k' = .gt := Std.OrientedCmp.gt_of_lt (h _ List.mem_cons_self)
    rw [insertEntry, hgt]
    dsimp only
    rw [ih fun e he => h e (List.mem_cons_of_mem _ he), List.cons_append]

/-- A list in ascending order is the list of entries. -/
theorem entries_ofList_of_ascending {es : List (κ × α)}
    (h : es.Pairwise fun a b => compare a.1 b.1 = .lt) : (ofList es).entries = es := by
  induction es using List.reverseRecOn with
  | nil => rfl
  | append_singleton es e ih =>
    obtain ⟨hes, -, hlast⟩ := List.pairwise_append.mp h
    have hlt : ∀ e' ∈ es, compare e'.1 e.1 = .lt := fun e' he' =>
      hlast e' he' e (List.mem_singleton_self e)
    rw [ofList_append_singleton, entries_insert, ih hes, insertEntry_of_all_lt hlt]

@[simp] theorem ofList_entries (m : SortedMap κ α) : ofList m.entries = m :=
  ext (entries_ofList_of_ascending m.ascending)

/-- Values may be changed before or after the entries are put in order. -/
theorem entries_ofList_map {β : Type} (f : α → β) (es : List (κ × α)) :
    (ofList (es.map fun e => (e.1, f e.2))).entries =
      (ofList es).entries.map fun e => (e.1, f e.2) := by
  induction es using List.reverseRecOn with
  | nil => rfl
  | append_singleton es e ih =>
    rw [List.map_append, List.map_singleton, ofList_append_singleton, ofList_append_singleton,
      entries_insert, entries_insert, ih]
    exact insertEntry_map f e.1 e.2 _

/-- Of two insertions under one key the last one counts. -/
theorem insert_insert (m : SortedMap κ α) (k : κ) (v v' : α) :
    (m.insert k v).insert k v' = m.insert k v' := by
  refine ext ?_
  simp only [insert]
  induction m.entries with
  | nil => simp [insertEntry, Std.ReflOrd.compare_self]
  | cons head rest ih =>
    obtain ⟨k₀, v₀⟩ := head
    cases h : compare k k₀ with
    | lt => simp [insertEntry, h, Std.ReflOrd.compare_self]
    | eq => simp [insertEntry, h]
    | gt => simp [insertEntry, h, ih]

theorem nodup_keys (m : SortedMap κ α) : (m.entries.map (·.1)).Nodup := by
  rw [List.Nodup, List.pairwise_map]
  refine m.ascending.imp fun {a b} hlt heq => ?_
  rw [heq, Std.ReflOrd.compare_self] at hlt
  cases hlt

omit [Std.TransOrd κ] in
/-- A key below all others has no answer. -/
theorem find?_eq_none_of_all_lt {k : κ} {es : List (κ × α)}
    (h : ∀ e ∈ es, compare k e.1 = .lt) : (es.find? fun e => compare k e.1 == .eq) = none :=
  List.find?_eq_none.mpr fun e he => by simp [h e he]

/-- A key with an answer is not below the first one. -/
theorem not_lt_of_find?_eq_some {k : κ} {e e' : κ × α} {es : List (κ × α)}
    (hes : (e :: es).Pairwise fun a b => compare a.1 b.1 = .lt)
    (h : ((e :: es).find? fun e => compare k e.1 == .eq) = some e') : compare k e.1 ≠ .lt := by
  intro hlt
  have hbelow : ∀ x ∈ e :: es, compare k x.1 = .lt :=
    List.forall_mem_cons.mpr ⟨hlt, fun x hx =>
      Std.TransCmp.lt_trans hlt ((List.pairwise_cons.mp hes).1 x hx)⟩
  rw [find?_eq_none_of_all_lt hbelow] at h
  cases h

/-- Maps with the same answers have the same values in the same order, however equal keys are
spelled. -/
theorem values_eq_of_get? {m n : SortedMap κ α} (h : ∀ k, m.get? k = n.get? k) :
    m.values = n.values := by
  obtain ⟨es, hes⟩ := m
  obtain ⟨fs, hfs⟩ := n
  simp only [get?] at h
  simp only [values]
  induction es generalizing fs with
  | nil =>
    cases fs with
    | nil => rfl
    | cons f fs => simpa using h f.1
  | cons e es ih =>
    obtain ⟨hbelow, hascending⟩ := List.pairwise_cons.mp hes
    cases fs with
    | nil => simpa using h e.1
    | cons f fs =>
      obtain ⟨hbelow', hascending'⟩ := List.pairwise_cons.mp hfs
      have hleast : compare e.1 f.1 = .eq := by
        obtain ⟨found, hfound, -⟩ := Option.map_eq_some_iff.mp
          ((h e.1).symm.trans (by simp : _ = some e.2))
        obtain ⟨found', hfound', -⟩ := Option.map_eq_some_iff.mp
          ((h f.1).trans (by simp : _ = some f.2))
        have hge := not_lt_of_find?_eq_some hfs hfound
        have hle := not_lt_of_find?_eq_some hes hfound'
        rw [Std.OrientedOrd.eq_swap, ne_eq, Ordering.swap_eq_lt] at hle
        cases hcompare : compare e.1 f.1 with
        | lt => exact absurd hcompare hge
        | eq => rfl
        | gt => exact absurd hcompare hle
      have hvalue : e.2 = f.2 := by simpa [hleast] using h e.1
      rw [List.map_cons, List.map_cons, hvalue, ih hascending fs hascending' fun k => ?_]
      by_cases hk : compare k e.1 = .eq
      · have hrest : ∀ x ∈ es, compare k x.1 = .lt := fun x hx =>
          (Std.TransCmp.congr_left hk).trans (hbelow x hx)
        have hrest' : ∀ x ∈ fs, compare k x.1 = .lt := fun x hx =>
          (Std.TransCmp.congr_left (Std.TransCmp.eq_trans hk hleast)).trans (hbelow' x hx)
        rw [find?_eq_none_of_all_lt hrest, find?_eq_none_of_all_lt hrest']
      · have hk' : compare k f.1 ≠ .eq := by rwa [← Std.TransCmp.congr_right hleast]
        simpa [List.find?_cons, hk, hk'] using h k

end Ordered

/-! ### Entries under a lawful order -/

section Lawful

variable [Std.LawfulEqOrd κ]

/-- The entry under a key is the one that a look-up finds. -/
theorem get?_eq_some_iff {m : SortedMap κ α} {k : κ} {v : α} :
    m.get? k = some v ↔ (k, v) ∈ m.entries := by
  obtain ⟨entries, ascending⟩ := m
  simp only [get?]
  induction entries with
  | nil => simp
  | cons head rest ih =>
    obtain ⟨k₀, v₀⟩ := head
    obtain ⟨hhead, hrest⟩ := List.pairwise_cons.mp ascending
    by_cases h : compare k k₀ = .eq
    · have hk : k = k₀ := Std.LawfulEqOrd.eq_of_compare h
      subst hk
      have hv : (k, v) ∉ rest := by
        intro hmem
        have hlt := hhead _ hmem
        rw [Std.ReflOrd.compare_self] at hlt
        cases hlt
      simp [hv, eq_comm]
    · have hk : k ≠ k₀ := by
        rintro rfl
        exact h Std.ReflOrd.compare_self
      simpa [List.find?_cons, h, hk] using ih hrest

theorem mem_keys_iff {m : SortedMap κ α} {k : κ} : k ∈ m.keys ↔ ∃ v, m.get? k = some v := by
  constructor
  · intro hk
    obtain ⟨⟨k', v⟩, hmem, rfl⟩ := List.mem_map.mp hk
    exact ⟨v, get?_eq_some_iff.mpr hmem⟩
  · rintro ⟨v, hv⟩
    exact mem_keys_of_get? hv

theorem mem_entries_erase {m : SortedMap κ α} {k : κ} {e : κ × α} :
    e ∈ (m.erase k).entries ↔ e ∈ m.entries ∧ e.1 ≠ k := by
  have hcompare : (compare k e.1 != .eq) = true ↔ e.1 ≠ k := by
    rw [bne_iff_ne, ne_eq, Std.LawfulEqOrd.compare_eq_iff_eq, eq_comm]
  exact List.mem_filter.trans (and_congr_right fun _ => hcompare)

/-- What is erased has no part in the answers for other keys. -/
theorem get?_erase_of_ne {m : SortedMap κ α} {k k' : κ} (h : k' ≠ k) :
    (m.erase k).get? k' = m.get? k' := by
  refine Option.ext fun v => ?_
  rw [get?_eq_some_iff, get?_eq_some_iff, mem_entries_erase]
  exact and_iff_left h

variable [Std.TransOrd κ]

theorem mem_entries_insert {m : SortedMap κ α} {k : κ} {v : α} {e : κ × α} :
    e ∈ (m.insert k v).entries ↔ e = (k, v) ∨ (e ∈ m.entries ∧ e.1 ≠ k) := by
  obtain ⟨k', v'⟩ := e
  rw [← get?_eq_some_iff, get?_insert, ← get?_eq_some_iff]
  by_cases h : k' = k
  · subst h
    simp [eq_comm]
  · have hne : compare k' k ≠ .eq := fun heq => h (Std.LawfulEqOrd.eq_of_compare heq)
    simp [h, hne]

/-- A list without repeated keys is the map's list of entries up to its order. -/
theorem mem_entries_ofList {es : List (κ × α)} (h : (es.map (·.1)).Nodup) {e : κ × α} :
    e ∈ (ofList es).entries ↔ e ∈ es := by
  induction es using List.reverseRecOn generalizing e with
  | nil => simp [ofList, empty]
  | append_singleton es new ih =>
    rw [List.map_append, List.nodup_append] at h
    obtain ⟨hes, -, hapart⟩ := h
    rw [ofList_append_singleton, mem_entries_insert, ih hes, List.mem_append,
      List.mem_singleton]
    constructor
    · rintro (he | ⟨he, _⟩)
      · exact .inr he
      · exact .inl he
    · rintro (he | he)
      · exact .inr ⟨he, hapart _ (List.mem_map_of_mem he) _ (by simp)⟩
      · exact .inl he

theorem get?_ofList_eq_none {es : List (κ × α)} (h : (es.map (·.1)).Nodup) {k : κ}
    (hmem : k ∉ es.map (·.1)) : (ofList es).get? k = none := by
  rw [Option.eq_none_iff_forall_ne_some]
  intro v hv
  exact hmem (List.mem_map_of_mem (f := (·.1))
    ((mem_entries_ofList h).mp (get?_eq_some_iff.mp hv)))

/-- A map is determined by its answers. -/
theorem ext_get? {m n : SortedMap κ α} (h : ∀ k, m.get? k = n.get? k) : m = n := by
  have hnodup : ∀ m : SortedMap κ α, m.entries.Nodup := fun m => List.Nodup.of_map _ m.nodup_keys
  have hmem : ∀ e, e ∈ m.entries ↔ e ∈ n.entries := fun e => by
    rw [← get?_eq_some_iff, ← get?_eq_some_iff, h]
  refine ext (List.Perm.eq_of_pairwise (fun a b _ _ hlt hgt => ?_) m.ascending n.ascending
    ((List.perm_ext_iff_of_nodup (hnodup m) (hnodup n)).mpr hmem))
  rw [Std.OrientedCmp.gt_of_lt hlt] at hgt
  cases hgt

/-- A map answers with the last of the entries that it was made of. -/
theorem get?_ofList_map {σ : Type} [DecidableEq κ] (f : σ → κ) (es : List (σ × α)) (k : κ) :
    (ofList (es.map fun e => (f e.1, e.2))).get? k = lastUnder f k es := by
  induction es using List.reverseRecOn with
  | nil => rfl
  | append_singleton es e ih =>
    rw [List.map_append, List.map_singleton, ofList_append_singleton, get?_insert, ih,
      lastUnder_append_singleton]
    refine if_congr ?_ rfl rfl
    rw [Std.LawfulEqOrd.compare_eq_iff_eq, eq_comm]

end Lawful

end Depsolve.SortedMap

namespace Depsolve.SortedSet

variable {κ : Type} [Ord κ] [Std.TransOrd κ]

theorem ofList_eq (ks : List κ) : ofList ks = SortedMap.ofList (ks.map fun k => (k, ())) := by
  rw [ofList, SortedMap.ofList, List.foldl_map]
  rfl

/-- A list in ascending order is the list of elements. -/
theorem toList_ofList_of_ascending {ks : List κ} (h : ks.Pairwise fun a b => compare a b = .lt) :
    (ofList ks).toList = ks := by
  rw [ofList_eq, toList, SortedMap.keys,
    SortedMap.entries_ofList_of_ascending (List.pairwise_map.mpr h), List.map_map]
  exact List.map_id ks

@[simp] theorem ofList_toList (s : SortedSet κ) : ofList s.toList = s := by
  rw [ofList_eq, toList, SortedMap.keys, List.map_map]
  exact (congrArg SortedMap.ofList (List.map_id s.entries)).trans (SortedMap.ofList_entries s)

omit [Std.TransOrd κ] in
theorem ascending_toList (s : SortedSet κ) : s.toList.Pairwise fun a b => compare a b = .lt :=
  List.pairwise_map.mpr s.ascending

omit [Std.TransOrd κ] in
theorem toList_eq_nil_of_isEmpty {s : SortedSet κ} (h : s.isEmpty = true) : s.toList = [] := by
  rw [toList, SortedMap.keys, List.map_eq_nil_iff]
  exact List.isEmpty_iff.mp h

section Lawful

variable [Std.LawfulEqOrd κ]

omit [Std.TransOrd κ] in
theorem get?_eq_some_iff_mem {s : SortedSet κ} {k : κ} : s.get? k = some () ↔ k ∈ s.toList := by
  rw [SortedMap.get?_eq_some_iff, toList, SortedMap.keys, List.mem_map]
  exact ⟨fun h => ⟨_, h, rfl⟩, fun ⟨e, he, hk⟩ => hk ▸ he⟩

/-- A set is determined by its elements. -/
theorem ext_toList {s t : SortedSet κ} (h : ∀ k, k ∈ s.toList ↔ k ∈ t.toList) : s = t := by
  refine SortedMap.ext_get? fun k => Option.ext fun ⟨⟩ => ?_
  exact get?_eq_some_iff_mem.trans ((h k).trans get?_eq_some_iff_mem.symm)

theorem mem_toList_add {s : SortedSet κ} {k new : κ} :
    k ∈ (s.add new).toList ↔ k = new ∨ k ∈ s.toList := by
  rw [← get?_eq_some_iff_mem, ← get?_eq_some_iff_mem, add, SortedMap.get?_insert]
  by_cases h : k = new
  · simp [h, Std.ReflOrd.compare_self]
  · have hne : compare k new ≠ .eq := fun heq => h (Std.LawfulEqOrd.eq_of_compare heq)
    simp [h, hne]

/-- The elements after the images of some others were added. -/
theorem mem_toList_foldl_add {α : Type} (f : α → κ) (xs : List α) (s : SortedSet κ) {k : κ} :
    k ∈ (xs.foldl (fun s x => s.add (f x)) s).toList ↔ k ∈ s.toList ∨ ∃ x ∈ xs, f x = k := by
  induction xs generalizing s with
  | nil => simp
  | cons x xs ih =>
    rw [List.foldl_cons, ih, mem_toList_add, List.exists_mem_cons_iff, eq_comm]
    tauto

theorem mem_toList_ofList {ks : List κ} {k : κ} : k ∈ (ofList ks).toList ↔ k ∈ ks := by
  have hempty : k ∉ toList (SortedMap.empty : SortedSet κ) := List.not_mem_nil
  rw [ofList]
  simpa [hempty] using mem_toList_foldl_add id ks SortedMap.empty (k := k)

theorem mem_toList_union {s t : SortedSet κ} {k : κ} :
    k ∈ (s.union t).toList ↔ k ∈ s.toList ∨ k ∈ t.toList := by
  rw [union]
  simpa using mem_toList_foldl_add id t.toList s (k := k)

/-- A row in ascending order is determined by its elements. -/
theorem eq_of_ascending {xs ys : List κ} (hxs : xs.Pairwise fun a b => compare a b = .lt)
    (hys : ys.Pairwise fun a b => compare a b = .lt) (h : ∀ k, k ∈ xs ↔ k ∈ ys) : xs = ys := by
  have hsets : ofList xs = ofList ys := by
    refine ext_toList fun k => ?_
    rw [mem_toList_ofList, mem_toList_ofList, h]
  rw [← toList_ofList_of_ascending hxs, hsets, toList_ofList_of_ascending hys]

end Lawful

end Depsolve.SortedSet
