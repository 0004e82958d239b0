import Depsolve.Text.Blank
import Depsolve.Text.Letter
import Depsolve.Text.LowerCase

/-!
Package names and their normal form. Metadata, manifests and users spell one package in
several ways, so every name is normalized before it serves as a key: letters become
small, and a run of underscores, dots and white space becomes one dash. Dashes stay as
they are.

`normalize_normalize` says that the normal form of a normal form is itself; hence a
`PackageName` carries the proof that its text is normal.
-/

namespace Depsolve

/-- A character that separates the words of a name: an underscore, a dot or white space. -/
def isSeparator (c : Char) : Bool :=
  c == '_' || c == '.' || Text.isBlank c

/-- The normal form of the characters that follow; `inRun` tells that a separator stands
in front of them, whose dash is already written. -/
def normalizeFrom (inRun : Bool) : List Char → List Char
  | [] => []
  | c :: cs =>
    if isSeparator c then
      if inRun then normalizeFrom true cs else '-' :: normalizeFrom true cs
    else Text.lower c ++ normalizeFrom false cs

/-- The normal form of a name. -/
def normalize (name : String) : String :=
  String.ofList (normalizeFrom false name.toList)

/-- Whether a name is usable: its normal form, without white space at the ends, has a
character, begins and ends with a letter or a digit, and has only those and dashes. -/
def isValidName (name : String) : Bool :=
  let cs := (normalize (Text.trim name)).toList
  !cs.isEmpty && cs.all (fun c => Text.isAlphanumeric c || c == '-') &&
    cs.head? != some '-' && cs.getLast? != some '-'

/-! ### Normal forms stay as they are -/

/-- The code points of the separators, once more as a list. -/
def separatorCodes : List Nat :=
  [0x5f, 0x2e] ++ Text.blankRanges.flatMap fun r =>
    (List.range (r.2 + 1 - r.1)).map (r.1 + ·)

theorem mem_separatorCodes {c : Char} (h : isSeparator c = true) :
    c.toNat ∈ separatorCodes := by
  simp only [isSeparator, Bool.or_eq_true, beq_iff_eq] at h
  rcases h with (rfl | rfl) | h
  · decide
  · decide
  · obtain ⟨r, hr, hlo, hhi⟩ := Text.Ranges.contains_iff.mp h
    refine List.mem_append_right _ (List.mem_flatMap.mpr ⟨r, hr, ?_⟩)
    exact List.mem_map.mpr ⟨c.toNat - r.1, by simp; omega, by omega⟩

private theorem caseRuns_apart_separators :
    (Text.caseRuns.all fun r => separatorCodes.all fun n =>
      Text.CaseRun.apart r ⟨n, n, 2, 0⟩) = true := by decide +kernel

/-- No separator is the small form of a character that is none. -/
theorem isSeparator_of_mem_lower {c d : Char} (hc : isSeparator c = false)
    (h : d ∈ Text.lower c) : isSeparator d = false := by
  unfold Text.lower at h
  split at h
  · simp only [List.mem_cons, List.not_mem_nil, or_false] at h
    rcases h with rfl | rfl <;> decide +kernel
  · split at h
    · rename_i r hr
      have hmem := List.mem_of_find?_eq_some hr
      have hcont : r.contains c.toNat = true := by simpa using List.find?_some hr
      rw [Bool.eq_false_iff]
      intro hsep
      have hd := mem_separatorCodes hsep
      have happ := List.all_eq_true.mp
        (List.all_eq_true.mp caseRuns_apart_separators r hmem) _ hd
      have hnot := r.not_contains_image happ hcont
      rw [List.mem_singleton.mp h, Text.toNat_lower hr] at hnot
      simp [Text.CaseRun.contains] at hnot
    · rw [List.mem_singleton.mp h]
      exact hc

/-- A character that normalization leaves alone. -/
def isSettled (c : Char) : Prop :=
  isSeparator c = false ∧ Text.lower c = [c]

theorem normalizeFrom_of_settled {cs : List Char} (h : ∀ c ∈ cs, isSettled c) (b : Bool) :
    normalizeFrom b cs = cs := by
  induction cs generalizing b with
  | nil => rfl
  | cons c cs ih =>
    obtain ⟨hsep, hlow⟩ := h c (by simp)
    simp [normalizeFrom, hsep, hlow, ih fun d hd => h d (by simp [hd])]

theorem isSettled_of_mem_normalizeFrom {cs : List Char} {b : Bool} {d : Char}
    (h : d ∈ normalizeFrom b cs) : isSettled d := by
  have hdash : isSettled '-' := ⟨by decide +kernel, by decide +kernel⟩
  induction cs generalizing b with
  | nil => simp [normalizeFrom] at h
  | cons c cs ih =>
    unfold normalizeFrom at h
    split at h
    · split at h
      · exact ih h
      · rcases List.mem_cons.mp h with rfl | h
        · exact hdash
        · exact ih h
    · rename_i hsep
      rcases List.mem_append.mp h with h | h
      · exact ⟨isSeparator_of_mem_lower (by simpa using hsep) h, Text.lower_of_mem_lower h⟩
      · exact ih h

@[simp] theorem normalize_normalize (name : String) :
    normalize (normalize name) = normalize name := by
  have h := normalizeFrom_of_settled
    (fun c (hc : c ∈ normalizeFrom false name.toList) => isSettled_of_mem_normalizeFrom hc) false
  simp only [normalize, String.toList_ofList, h]

/-! ### Names in normal form -/

/-- A name in normal form. -/
structure PackageName where
  text : String
  normal : normalize text = text

namespace PackageName

/-- The name that a text spells. -/
def of (spelling : String) : PackageName := ⟨normalize spelling, normalize_normalize spelling⟩

@[ext] theorem ext {a b : PackageName} (h : a.text = b.text) : a = b := by
  cases a; cases b; cases h; rfl

instance : DecidableEq PackageName := fun a b =>
  if h : a.text = b.text then isTrue (PackageName.ext h) else isFalse fun e => h (congrArg text e)

/-- Names are ordered by their texts, code point by code point. -/
instance : Ord PackageName := ⟨compareOn text⟩

instance : Std.TransOrd PackageName := inferInstanceAs (Std.TransCmp (compareOn text))

instance : Std.LawfulEqOrd PackageName where
  eq_of_compare h := PackageName.ext (Std.LawfulEqOrd.eq_of_compare h)

instance : ToString PackageName := ⟨text⟩

theorem of_text (n : PackageName) : of n.text = n := PackageName.ext n.normal

end PackageName

end Depsolve
