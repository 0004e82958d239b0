import Depsolve.Proofs.Version.Text

/-!
Which texts are versions.

Reading cuts a text at its first plus sign and what is in front of it at its first dash. The grammar
does not mention cuts: it puts a version together from a mark, numerals and tags.

* `Numeral`, `Core` and `Spells` are the grammar of components and versions. A component that is
  left out is zero.
* `readComponents_eq_ok` and `readChars_eq_ok_iff_spells`: what is read is what is spelled.
* `Spells.cuts`: no part of a spelling has the sign in it at which the next part begins, so the
  tags are the ones between the cuts.
* `version_grammar_exact` puts them together.
-/

namespace Depsolve.Version

variable {cs core input : List Char} {ws : List UInt64} {w major : UInt64}
  {minor patch : Option UInt64} {v : Version}

/-! ### Components -/

/-- One or more ASCII digits that denote a word. -/
structure Numeral (cs : List Char) (w : UInt64) : Prop where
  nonempty : cs ≠ []
  digits : ∀ c ∈ cs, c.isDigit = true
  value : Text.digitsValue cs = w.toNat

/-- One to three numerals with dots between them: the major component, and the minor one and the
patch as far as they are given. -/
inductive Core : List Char → UInt64 → Option UInt64 → Option UInt64 → Prop where
  | major {cs : List Char} {major : UInt64} (hmajor : Numeral cs major) :
      Core cs major none none
  | minor {cs ds : List Char} {major minor : UInt64} (hmajor : Numeral cs major)
      (hminor : Numeral ds minor) : Core (cs ++ '.' :: ds) major (some minor) none
  | patch {cs ds es : List Char} {major minor patch : UInt64} (hmajor : Numeral cs major)
      (hminor : Numeral ds minor) (hpatch : Numeral es patch) :
      Core (cs ++ '.' :: (ds ++ '.' :: es)) major (some minor) (some patch)

theorem readComponent_eq_ok : readComponent cs = .ok w ↔ Numeral cs w := by
  have hword : readComponent cs = .ok w ↔ Text.word? cs = some w := by
    unfold readComponent
    split <;> simp [*]
  rw [hword, Text.word?_eq_some]
  exact ⟨fun ⟨hne, hdigits, hvalue⟩ => ⟨hne, hdigits, hvalue⟩,
    fun h => ⟨h.nonempty, h.digits, h.value⟩⟩

theorem Numeral.not_mem {c : Char} (h : Numeral cs w) (hc : c.isDigit = false) : c ∉ cs :=
  fun hmem => by
    rw [h.digits c hmem] at hc
    cases hc

/-- The pieces between the dots are the numerals. -/
theorem Core.splitOn (h : Core cs major minor patch) :
    (Text.splitOn '.' cs).length ≤ 3 ∧
      List.Forall₂ Numeral (Text.splitOn '.' cs) (major :: (minor.toList ++ patch.toList)) := by
  have hdot {ds : List Char} {w : UInt64} (h : Numeral ds w) : '.' ∉ ds := h.not_mem (by decide)
  cases h with
  | major hmajor =>
    rw [Text.splitOn_of_not_mem (hdot hmajor)]
    exact ⟨by simp, .cons hmajor .nil⟩
  | minor hmajor hminor =>
    rw [Text.splitOn_append (hdot hmajor), Text.splitOn_of_not_mem (hdot hminor)]
    exact ⟨by simp, .cons hmajor (.cons hminor .nil)⟩
  | patch hmajor hminor hpatch =>
    rw [Text.splitOn_append (hdot hmajor), Text.splitOn_append (hdot hminor),
      Text.splitOn_of_not_mem (hdot hpatch)]
    exact ⟨by simp, .cons hmajor (.cons hminor (.cons hpatch .nil))⟩

/-- Up to three numerals with dots between them are a core. -/
theorem exists_core_of_forall₂ {pieces : List (List Char)} (hne : pieces ≠ [])
    (hlength : pieces.length ≤ 3) (h : List.Forall₂ Numeral pieces ws) :
    ∃ major minor patch, Core (List.intercalate ['.'] pieces) major minor patch ∧
      ws = major :: (minor.toList ++ patch.toList) := by
  match pieces, ws, h with
  | [cs], [major], .cons hmajor .nil =>
    exact ⟨major, none, none, by simpa [List.intercalate] using Core.major hmajor, rfl⟩
  | [cs, ds], [major, minor], .cons hmajor (.cons hminor .nil) =>
    exact ⟨major, some minor, none,
      by simpa [List.intercalate] using Core.minor hmajor hminor, rfl⟩
  | [cs, ds, es], [major, minor, patch], .cons hmajor (.cons hminor (.cons hpatch .nil)) =>
    exact ⟨major, some minor, some patch,
      by simpa [List.intercalate] using Core.patch hmajor hminor hpatch, rfl⟩

theorem readComponents_eq_ok :
    readComponents core input = .ok ws ↔ ∃ major minor patch, Core core major minor patch ∧
      ws = major :: (minor.toList ++ patch.toList) := by
  have hpieces : readComponents core input = .ok ws ↔ (Text.splitOn '.' core).length ≤ 3 ∧
      List.Forall₂ Numeral (Text.splitOn '.' core) ws := by
    rw [readComponents, ite_error_eq_ok, mapM_eq_ok, gt_iff_lt, Nat.not_lt]
    simp only [readComponent_eq_ok]
  rw [hpieces]
  constructor
  · rintro ⟨hlength, hnumerals⟩
    have hcore := exists_core_of_forall₂ (Text.splitOn_ne_nil '.' core) hlength hnumerals
    rwa [Text.intercalate_splitOn] at hcore
  · rintro ⟨major, minor, patch, hcore, rfl⟩
    exact hcore.splitOn

/-- The components are numbered as they are given. -/
theorem Core.getElem? (h : Core cs major minor patch) :
    (major :: (minor.toList ++ patch.toList))[1]? = minor ∧
      (major :: (minor.toList ++ patch.toList))[2]? = patch := by
  cases h <;> exact ⟨rfl, rfl⟩

/-- Components are written with digits and dots. -/
theorem Core.eq_dot_or_isDigit {c : Char} (h : Core cs major minor patch) (hc : c ∈ cs) :
    c = '.' ∨ c.isDigit = true := by
  cases h with
  | major hmajor => exact .inr (hmajor.digits c hc)
  | minor hmajor hminor =>
    simp only [List.mem_append, List.mem_cons] at hc
    rcases hc with hc | hc | hc
    · exact .inr (hmajor.digits c hc)
    · exact .inl hc
    · exact .inr (hminor.digits c hc)
  | patch hmajor hminor hpatch =>
    simp only [List.mem_append, List.mem_cons] at hc
    rcases hc with hc | hc | hc | hc | hc
    · exact .inr (hmajor.digits c hc)
    · exact .inl hc
    · exact .inr (hminor.digits c hc)
    · exact .inl hc
    · exact .inr (hpatch.digits c hc)

theorem Core.not_mem {c : Char} (h : Core cs major minor patch) (hdot : c ≠ '.')
    (hc : c.isDigit = false) : c ∉ cs := fun hmem => by
  rcases h.eq_dot_or_isDigit hmem with heq | hdigit
  · exact hdot heq
  · rw [hdigit] at hc
    cases hc

/-- What begins with a digit does so also with more behind it. -/
theorem exists_cons_append (h : ∃ c rest, cs = c :: rest ∧ c.isDigit = true) (ds : List Char) :
    ∃ c rest, cs ++ ds = c :: rest ∧ c.isDigit = true := by
  obtain ⟨c, rest, rfl, hc⟩ := h
  exact ⟨c, rest ++ ds, rfl, hc⟩

theorem Numeral.exists_cons (h : Numeral cs w) : ∃ c rest, cs = c :: rest ∧ c.isDigit = true := by
  obtain ⟨c, rest, rfl⟩ := List.exists_cons_of_ne_nil h.nonempty
  exact ⟨c, rest, rfl, h.digits c List.mem_cons_self⟩

/-- Components begin with a digit. -/
theorem Core.exists_cons (h : Core cs major minor patch) :
    ∃ c rest, cs = c :: rest ∧ c.isDigit = true := by
  cases h with
  | major hmajor => exact hmajor.exists_cons
  | minor hmajor _ => exact exists_cons_append hmajor.exists_cons _
  | patch hmajor _ _ => exact exists_cons_append hmajor.exists_cons _

/-- Components and the tag behind them have digits, identifier characters, dots and dashes. -/
theorem Core.not_mem_append_tagChars {c : Char} {tag : Option String}
    (h : Core cs major minor patch) (htag : ∀ t, tag = some t → isTag t.toList = true)
    (hdash : c ≠ '-') (hdot : c ≠ '.') (hc : isIdentifierChar c = false) :
    c ∉ cs ++ tagChars '-' tag := by
  rw [List.mem_append, not_or]
  exact ⟨h.not_mem hdot (isDigit_eq_false hc), not_mem_tagChars htag hdash hdot hc⟩

/-! ### Versions -/

/-- The spellings of a version: a mark `v` that may be missing, the components, of which those that
are left out are zero, and the tags that it has. -/
inductive Spells : List Char → Version → Prop where
  | intro {mark core : List Char} {major : UInt64} {minor patch : Option UInt64}
      {prerelease build : Option String} (hmark : mark = [] ∨ mark = ['v'])
      (hcore : Core core major minor patch)
      (hprerelease : ∀ tag, prerelease = some tag → IsDotted tag)
      (hbuild : ∀ tag, build = some tag → IsDotted tag) :
      Spells (mark ++ core ++ tagChars '-' prerelease ++ tagChars '+' build)
        ⟨major, minor.getD 0, patch.getD 0, prerelease, build⟩

theorem exists_mark (cs : List Char) :
    ∃ mark, (mark = [] ∨ mark = ['v']) ∧ cs = mark ++ dropMark cs := by
  unfold dropMark
  split
  · exact ⟨['v'], .inr rfl, rfl⟩
  · exact ⟨[], .inl rfl, rfl⟩

/-- Only a mark is dropped in front of components. -/
theorem dropMark_append {mark : List Char} (hmark : mark = [] ∨ mark = ['v'])
    (h : Core core major minor patch) (rest : List Char) :
    dropMark (mark ++ core ++ rest) = core ++ rest := by
  rcases hmark with rfl | rfl
  · obtain ⟨c, cs, rfl, hc⟩ := h.exists_cons
    have hne : c ≠ 'v' := by
      rintro rfl
      cases hc
    simp [dropMark, hne]
  · rfl

/-- Where the text is cut, the parts of a spelling meet. -/
theorem Spells.cuts (h : Spells cs v) : ∃ front core, cs = front ++ tagChars '+' v.build ∧
    '+' ∉ front ∧ front = core ++ tagChars '-' v.prerelease ∧ '-' ∉ core := by
  obtain @⟨mark, core, major, minor, patch, prerelease, build, hmark, hcore, hprerelease, -⟩ := h
  have htag (tag : String) (ht : prerelease = some tag) : isTag tag.toList = true :=
    isTag_iff.mpr (hprerelease tag ht)
  have hplus : '+' ∉ mark := by rcases hmark with rfl | rfl <;> decide
  have hdash : '-' ∉ mark := by rcases hmark with rfl | rfl <;> decide
  refine ⟨_, mark ++ core, rfl, ?_, rfl, ?_⟩
  · rw [List.append_assoc, List.mem_append, not_or]
    exact ⟨hplus, hcore.not_mem_append_tagChars htag (by decide) (by decide) (by decide)⟩
  · rw [List.mem_append, not_or]
    exact ⟨hdash, hcore.not_mem (by decide) (by decide)⟩

/-- Trimmed characters are read as a version just if they spell it. -/
theorem readChars_eq_ok_iff_spells : readChars input = .ok v ↔ Spells input v := by
  rw [readChars_eq_ok]
  constructor
  · rintro ⟨body, core, numbers, -, hbuild, hprerelease, hnumbers, hmajor, hminor, hpatch⟩
    obtain ⟨hbody, -, hbuildTag⟩ := splitBuild_eq_ok.mp hbuild
    obtain ⟨rfl, -, hprereleaseTag⟩ := splitPrerelease_eq_ok.mp hprerelease
    obtain ⟨major, minor, patch, hcore, rfl⟩ := readComponents_eq_ok.mp hnumbers
    obtain ⟨mark, hmark, hinput⟩ := exists_mark input
    have hspells : Spells (mark ++ core ++ tagChars '-' v.prerelease ++ tagChars '+' v.build)
        ⟨major, minor.getD 0, patch.getD 0, v.prerelease, v.build⟩ :=
      .intro hmark hcore (fun tag ht => isTag_iff.mp (hprereleaseTag tag ht))
        fun tag ht => isTag_iff.mp (hbuildTag tag ht)
    rw [hcore.getElem?.1] at hminor
    rw [hcore.getElem?.2] at hpatch
    have hversion : major = v.major := hmajor.symm
    rw [hversion, ← hminor, ← hpatch] at hspells
    rwa [hinput, hbody, ← List.append_assoc, ← List.append_assoc]
  · rintro @⟨mark, core, major, minor, patch, prerelease, build, hmark, hcore, hprerelease, hbuild⟩
    have htag (tag : String) (ht : prerelease = some tag) : isTag tag.toList = true :=
      isTag_iff.mpr (hprerelease tag ht)
    have hplus : '+' ∉ core ++ tagChars '-' prerelease :=
      hcore.not_mem_append_tagChars htag (by decide) (by decide) (by decide)
    have hdrop : dropMark (mark ++ core ++ tagChars '-' prerelease ++ tagChars '+' build) =
        core ++ tagChars '-' prerelease ++ tagChars '+' build := by
      rw [List.append_assoc, dropMark_append hmark hcore, List.append_assoc]
    rw [hdrop]
    refine ⟨core ++ tagChars '-' prerelease, core, major :: (minor.toList ++ patch.toList), ?_,
      splitBuild_eq_ok.mpr ⟨rfl, hplus, fun tag ht => isTag_iff.mpr (hbuild tag ht)⟩,
      splitPrerelease_eq_ok.mpr ⟨rfl, hcore.not_mem (by decide) (by decide), htag⟩,
      readComponents_eq_ok.mpr ⟨major, minor, patch, hcore, rfl⟩, rfl, ?_, ?_⟩
    · obtain ⟨c, cs, rfl, -⟩ := hcore.exists_cons
      exact List.cons_ne_nil _ _
    · rw [hcore.getElem?.1]
    · rw [hcore.getElem?.2]

end Depsolve.Version

namespace Depsolve

/-- Reading versions is exact. A text is read as a version just if the text without the white space
at both ends spells it. The build tag is then all that follows the first plus sign, and the
prerelease tag all that stands between the first dash in front of that sign and the sign. -/
theorem version_grammar_exact (text : String) (v : Version) :
    (Version.parse text = .ok v ↔ Version.Spells (Text.trimChars text.toList) v) ∧
    (Version.parse text = .ok v → ∃ front core,
      Text.trimChars text.toList = front ++ Version.tagChars '+' v.build ∧ '+' ∉ front ∧
      front = core ++ Version.tagChars '-' v.prerelease ∧ '-' ∉ core) :=
  ⟨Version.readChars_eq_ok_iff_spells,
    fun hread => (Version.readChars_eq_ok_iff_spells.mp hread).cuts⟩

/-- Blanks around the text, a mark, zeros in front, a component that is left out, and dashes and dots
in both tags. -/
theorem version_grammar_exact_marked :
    ∃ v, Version.parse " v03.11-rc-1.x+5-b " = .ok v ∧ v = ⟨3, 11, 0, some "rc-1.x", some "5-b"⟩ ∧
      Version.Spells "v03.11-rc-1.x+5-b".toList v ∧ ∃ front core,
        "v03.11-rc-1.x+5-b".toList = front ++ Version.tagChars '+' v.build ∧ '+' ∉ front ∧
        front = core ++ Version.tagChars '-' v.prerelease ∧ '-' ∉ core := by
  have hread : Version.parse " v03.11-rc-1.x+5-b " =
      .ok ⟨3, 11, 0, some "rc-1.x", some "5-b"⟩ := by decide +kernel
  have htrim : Text.trimChars " v03.11-rc-1.x+5-b ".toList = "v03.11-rc-1.x+5-b".toList := by
    decide +kernel
  refine ⟨_, hread, rfl, ?_, ?_⟩
  · rw [← htrim]
    exact (version_grammar_exact _ _).1.mp hread
  · rw [← htrim]
    exact (version_grammar_exact _ _).2 hread

end Depsolve
