import Depsolve.Proofs.Except
import Depsolve.Proofs.Text
import Depsolve.Version.Text

/-!
Version texts read back.

* `WellFormed` is what a version text can give to a version: the tags are identifiers with
  dots between them. `wellFormed_of_parse` says that every version that is read is of this
  form.
* `parse_render`: such a version is read off its own text. Each mark stands once in front of
  the part that it begins, so the parts are found again where they were put together.
* `InForm` says the same in terms of the identifiers that a tag is made of, and
  `version_text_faithful` puts both directions together: what has this form is read off its own
  text, and what is read has this form.
-/

namespace Depsolve.Version

variable {cs rest core input : List Char} {tag : Option String} {ws : List UInt64}

/-- Both tags are of the form that a version text gives them. -/
structure WellFormed (v : Version) : Prop where
  prerelease : ∀ tag, v.prerelease = some tag → isTag tag.toList = true
  build : ∀ tag, v.build = some tag → isTag tag.toList = true

/-! ### Characters -/

theorem isIdentifierChar_iff {c : Char} :
    isIdentifierChar c = true ↔ c.isAlphanum = true ∨ c = '-' := by
  rw [isIdentifierChar, Bool.or_eq_true, beq_iff_eq]

theorem isDigit_eq_false {c : Char} (h : isIdentifierChar c = false) : c.isDigit = false := by
  simp only [isIdentifierChar, Char.isAlphanum, Bool.or_eq_false_iff] at h
  exact h.1.2

theorem eq_dot_or_isIdentifierChar_of_isTag {c : Char} (h : isTag cs = true) (hc : c ∈ cs) :
    c = '.' ∨ isIdentifierChar c = true := by
  refine (Text.mem_splitOn_cases hc).imp_right fun ⟨piece, hpiece, hc⟩ => ?_
  have hall := List.all_eq_true.mp h piece hpiece
  exact List.all_eq_true.mp (Bool.and_eq_true_iff.mp hall).2 c hc

theorem isVisible_of_isIdentifierChar {c : Char} (h : isIdentifierChar c = true) :
    Text.isVisible c = true := by
  rcases isIdentifierChar_iff.mp h with h | rfl
  · exact Text.isVisible_of_isAlphanum h
  · decide

theorem all_isVisible_of_isTag (h : isTag cs = true) : cs.all Text.isVisible = true := by
  refine List.all_eq_true.mpr fun c hc => ?_
  rcases eq_dot_or_isIdentifierChar_of_isTag h hc with rfl | hc
  · decide
  · exact isVisible_of_isIdentifierChar hc

/-- Only identifier characters and dots stand behind the mark of a tag. -/
theorem not_mem_tagChars {c mark : Char} (htag : ∀ t, tag = some t → isTag t.toList = true)
    (hmark : c ≠ mark) (hdot : c ≠ '.') (hc : isIdentifierChar c = false) :
    c ∉ tagChars mark tag := by
  intro hmem
  cases tag with
  | none => cases hmem
  | some t =>
    rcases List.mem_cons.mp hmem with h | h
    · exact hmark h
    · rcases eq_dot_or_isIdentifierChar_of_isTag (htag t rfl) h with h | h
      · exact hdot h
      · rw [h] at hc
        cases hc

theorem all_isVisible_tagChars {mark : Char} (hmark : Text.isVisible mark = true)
    (htag : ∀ t, tag = some t → isTag t.toList = true) :
    (tagChars mark tag).all Text.isVisible = true := by
  cases tag with
  | none => rfl
  | some t => simp [tagChars, hmark, all_isVisible_of_isTag (htag t rfl)]

/-! ### Parts -/

/-- The text up to the first mark, and the tag after it. -/
def splitTag (mark : Char) (invalid : String → VersionError) (cs : List Char) :
    Except VersionError (List Char × Option String) :=
  match Text.cutAt mark cs with
  | some (rest, tag) =>
    if isTag tag then .ok (rest, some (String.ofList tag))
    else .error (invalid (String.ofList tag))
  | none => .ok (cs, none)

/-- A text is split into what stands in front of the first mark and the tag behind it, if
there is a mark at all. -/
theorem splitTag_eq_ok {mark : Char} {invalid : String → VersionError} :
    splitTag mark invalid cs = .ok (rest, tag) ↔ cs = rest ++ tagChars mark tag ∧ mark ∉ rest ∧
      ∀ t, tag = some t → isTag t.toList = true := by
  constructor
  · intro h
    unfold splitTag at h
    split at h
    · rename_i rest' tag' hcut
      obtain ⟨rfl, hmark⟩ := Text.cutAt_eq_some.mp hcut
      split at h
      · rename_i htag
        cases h
        exact ⟨by simp [tagChars], hmark, fun t ht => by cases ht; simpa⟩
      · cases h
    · rename_i hcut
      cases h
      exact ⟨(List.append_nil _).symm, Text.cutAt_eq_none.mp hcut, fun t ht => by cases ht⟩
  · rintro ⟨rfl, hmark, htag⟩
    cases tag with
    | none => rw [tagChars, List.append_nil, splitTag, Text.cutAt_eq_none.mpr hmark]
    | some t =>
      rw [tagChars, splitTag, Text.cutAt_append hmark]
      dsimp only
      rw [if_pos (htag t rfl), String.ofList_toList]

theorem splitPrerelease_eq_ok :
    splitPrerelease cs = .ok (rest, tag) ↔ cs = rest ++ tagChars '-' tag ∧ '-' ∉ rest ∧
      ∀ t, tag = some t → isTag t.toList = true :=
  splitTag_eq_ok

theorem splitBuild_eq_ok :
    splitBuild cs = .ok (rest, tag) ↔ cs = rest ++ tagChars '+' tag ∧ '+' ∉ rest ∧
      ∀ t, tag = some t → isTag t.toList = true :=
  splitTag_eq_ok

/-- The numerals of words with dots between them. -/
def dottedWords (ws : List UInt64) : List Char := List.intercalate ['.'] (ws.map Text.wordDecimal)

theorem not_mem_dottedWords {c : Char} (hdot : c ≠ '.') (hc : c.isDigit = false) :
    c ∉ dottedWords ws := by
  intro hmem
  rcases Text.mem_intercalate_cases hmem with h | ⟨piece, hpiece, h⟩
  · exact hdot h
  · obtain ⟨w, -, rfl⟩ := List.mem_map.mp hpiece
    exact Text.not_mem_wordDecimal hc w h

theorem all_isVisible_dottedWords : (dottedWords ws).all Text.isVisible = true := by
  refine List.all_eq_true.mpr fun c hc => ?_
  rcases Text.mem_intercalate_cases hc with rfl | ⟨piece, hpiece, hc⟩
  · decide
  · obtain ⟨w, -, rfl⟩ := List.mem_map.mp hpiece
    exact List.all_eq_true.mp (Text.all_isVisible_wordDecimal w) c hc

theorem readComponents_dottedWords (hne : ws ≠ []) (hlength : ws.length ≤ 3)
    (input : List Char) : readComponents (dottedWords ws) input = .ok ws := by
  have hpieces : Text.splitOn '.' (dottedWords ws) = ws.map Text.wordDecimal := by
    refine Text.splitOn_intercalate (by simpa using hne) fun piece hpiece => ?_
    obtain ⟨w, -, rfl⟩ := List.mem_map.mp hpiece
    exact Text.not_mem_wordDecimal (by decide) w
  rw [readComponents, hpieces, if_neg (by simpa using hlength), mapM_eq_ok,
    List.forall₂_map_left_iff, List.forall₂_same]
  intro w _
  rw [readComponent, Text.word?_wordDecimal]

/-! ### Versions -/

/-- A version text is its components with dots between them and then the tags. -/
theorem chars_eq (v : Version) :
    v.chars = dottedWords [v.major, v.minor, v.patch] ++ tagChars '-' v.prerelease
      ++ tagChars '+' v.build := by
  simp [chars, dottedWords, List.intercalate]

theorem WellFormed.all_isVisible_chars {v : Version} (h : v.WellFormed) :
    v.chars.all Text.isVisible = true := by
  rw [chars_eq, List.all_append, List.all_append, all_isVisible_dottedWords,
    all_isVisible_tagChars (by decide) h.prerelease, all_isVisible_tagChars (by decide) h.build]
  rfl

/-- A version text begins with a digit, so no mark is dropped. -/
theorem dropMark_chars (v : Version) : dropMark v.chars = v.chars := by
  obtain ⟨c, cs, hcs, hc⟩ := Text.exists_wordDecimal_eq_cons v.major
  rw [chars, hcs]
  unfold dropMark
  split
  · rename_i heq
    cases heq
    cases hc
  · rfl

/-- A version text is a mark that may be missing, components and the tags that are cut off
behind them. -/
theorem readChars_eq_ok {v : Version} :
    readChars input = .ok v ↔ ∃ body core numbers, dropMark input ≠ [] ∧
      splitBuild (dropMark input) = .ok (body, v.build) ∧
      splitPrerelease body = .ok (core, v.prerelease) ∧
      readComponents core input = .ok numbers ∧
      v.major = numbers[0]?.getD 0 ∧ v.minor = numbers[1]?.getD 0 ∧
      v.patch = numbers[2]?.getD 0 := by
  rw [readChars]
  simp only [ite_throw_eq_ok, bind_eq_ok, Prod.exists]
  constructor
  · rintro ⟨hne, body, build, hbuild, core, prerelease, hprerelease, numbers, hnumbers, heq⟩
    cases heq
    exact ⟨body, core, numbers, mt List.isEmpty_iff.mpr hne, hbuild, hprerelease, hnumbers, rfl,
      rfl, rfl⟩
  · rintro ⟨body, core, numbers, hne, hbuild, hprerelease, hnumbers, hmajor, hminor, hpatch⟩
    refine ⟨mt List.isEmpty_iff.mp hne, body, v.build, hbuild, core, v.prerelease, hprerelease,
      numbers, hnumbers, ?_⟩
    rw [← hmajor, ← hminor, ← hpatch]
    rfl

/-- A version is read off its own characters. -/
theorem WellFormed.readChars_chars {v : Version} (h : v.WellFormed) :
    readChars v.chars = .ok v := by
  have hplus : '+' ∉ dottedWords [v.major, v.minor, v.patch] ++ tagChars '-' v.prerelease := by
    rw [List.mem_append, not_or]
    exact ⟨not_mem_dottedWords (by decide) (by decide),
      not_mem_tagChars h.prerelease (by decide) (by decide) (by decide)⟩
  have hdash : '-' ∉ dottedWords [v.major, v.minor, v.patch] :=
    not_mem_dottedWords (by decide) (by decide)
  refine readChars_eq_ok.mpr ⟨_, _, [v.major, v.minor, v.patch], ?_, ?_,
    splitPrerelease_eq_ok.mpr ⟨rfl, hdash, h.prerelease⟩,
    readComponents_dottedWords (List.cons_ne_nil _ _) (by simp) _, rfl, rfl, rfl⟩
  · rw [dropMark_chars, chars]
    simp [Text.wordDecimal_ne_nil]
  · rw [dropMark_chars, chars_eq]
    exact splitBuild_eq_ok.mpr ⟨rfl, hplus, h.build⟩

/-- A version is read off its own text. -/
theorem WellFormed.parse_render {v : Version} (h : v.WellFormed) : parse v.render = .ok v := by
  rw [parse, render, String.toList_ofList, Text.trimChars_of_all_isVisible h.all_isVisible_chars,
    h.readChars_chars]

/-- Every version that is read is well formed. -/
theorem wellFormed_of_parse {text : String} {v : Version} (h : parse text = .ok v) :
    v.WellFormed := by
  obtain ⟨body, core, numbers, -, hbuild, hprerelease, -⟩ := readChars_eq_ok.mp h
  exact ⟨(splitPrerelease_eq_ok.mp hprerelease).2.2, (splitBuild_eq_ok.mp hbuild).2.2⟩

/-! ### The form of versions -/

/-- One or more identifiers with dots between them, none of them empty and each of ASCII letters,
digits and dashes. -/
def IsDotted (tag : String) : Prop :=
  ∃ identifiers : List String, identifiers ≠ [] ∧ tag = ".".intercalate identifiers ∧
    ∀ i ∈ identifiers, i ≠ "" ∧ ∀ c ∈ i.toList, c.isAlphanum = true ∨ c = '-'

/-- Each tag of the version is missing or made of identifiers. -/
structure InForm (v : Version) : Prop where
  prerelease : ∀ tag, v.prerelease = some tag → IsDotted tag
  build : ∀ tag, v.build = some tag → IsDotted tag

theorem isTag_iff {tag : String} : isTag tag.toList = true ↔ IsDotted tag := by
  rw [isTag, List.all_eq_true]
  simp only [Bool.and_eq_true, Bool.not_eq_true', List.isEmpty_eq_false_iff, List.all_eq_true,
    isIdentifierChar_iff]
  constructor
  · intro h
    refine ⟨(Text.splitOn '.' tag.toList).map String.ofList, ?_, ?_, ?_⟩
    · simpa using Text.splitOn_ne_nil '.' tag.toList
    · refine String.toList_inj.mp ?_
      rw [String.toList_intercalate, List.map_map, String.toList_comp_ofList, List.map_id]
      exact (Text.intercalate_splitOn '.' tag.toList).symm
    · intro i hi
      obtain ⟨piece, hpiece, rfl⟩ := List.mem_map.mp hi
      obtain ⟨hne, hchars⟩ := h piece hpiece
      rw [String.toList_ofList]
      exact ⟨by simpa using hne, hchars⟩
  · rintro ⟨identifiers, hne, rfl, hall⟩
    have hpieces : Text.splitOn '.' (".".intercalate identifiers).toList =
        identifiers.map String.toList := by
      rw [String.toList_intercalate]
      refine Text.splitOn_intercalate (by simpa using hne) fun piece hpiece hdot => ?_
      obtain ⟨i, hi, rfl⟩ := List.mem_map.mp hpiece
      rcases (hall i hi).2 '.' hdot with h | h <;> cases h
    rw [hpieces]
    intro piece hpiece
    obtain ⟨i, hi, rfl⟩ := List.mem_map.mp hpiece
    obtain ⟨hi, hchars⟩ := hall i hi
    exact ⟨by simpa using hi, hchars⟩

theorem wellFormed_iff {v : Version} : v.WellFormed ↔ v.InForm := by
  constructor
  · intro h
    exact ⟨fun tag ht => isTag_iff.mp (h.prerelease tag ht),
      fun tag ht => isTag_iff.mp (h.build tag ht)⟩
  · intro h
    exact ⟨fun tag ht => isTag_iff.mpr (h.prerelease tag ht),
      fun tag ht => isTag_iff.mpr (h.build tag ht)⟩

end Depsolve.Version

namespace Depsolve

/-- Texts and versions are faithful to each other. Every version whose tags are made of
identifiers, with any components, is read off its own text; and every version that is read off
some text is of this form, so that writing it and reading it again gives it back. -/
theorem version_text_faithful :
    (∀ v : Version, v.InForm → Version.parse v.render = .ok v) ∧
    ∀ (text : String) (v : Version), Version.parse text = .ok v →
      v.InForm ∧ Version.parse v.render = .ok v := by
  refine ⟨fun v hform => (Version.wellFormed_iff.mpr hform).parse_render, fun text v hread => ?_⟩
  have hwellFormed := Version.wellFormed_of_parse hread
  exact ⟨Version.wellFormed_iff.mp hwellFormed, hwellFormed.parse_render⟩

namespace Version

/-- The largest major component, and dashes and dots in both tags. -/
def dashed : Version :=
  ⟨18446744073709551615, 0, 7, some "rc-1.0-x.-", some "build-7.007"⟩

theorem inForm_dashed : dashed.InForm where
  prerelease tag htag := by
    cases htag
    exact isTag_iff.mp (by decide +kernel)
  build tag htag := by
    cases htag
    exact isTag_iff.mp (by decide +kernel)

end Version

/-- The version is read off its text, and so is a short spelling with a mark and white space. -/
theorem version_text_faithful_dashed :
    Version.dashed.InForm ∧ Version.parse Version.dashed.render = .ok Version.dashed ∧
      ∃ v, Version.parse " v03.11-rc-1.x+5-b " = .ok v ∧ v.InForm ∧
        Version.parse v.render = .ok v := by
  have hread : Version.parse " v03.11-rc-1.x+5-b " =
      .ok ⟨3, 11, 0, some "rc-1.x", some "5-b"⟩ := by decide +kernel
  exact ⟨Version.inForm_dashed, version_text_faithful.1 _ Version.inForm_dashed, _, hread,
    version_text_faithful.2 _ _ hread⟩

end Depsolve
