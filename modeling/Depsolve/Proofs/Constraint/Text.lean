import Depsolve.Constraint.Text
import Depsolve.Proofs.Version.Text

/-!
Constraint texts read back.

* `WellFormed` is what a constraint text can give to a version of a clause, to a clause and to
  a constraint; whatever is read is of this form.
* `parse_render`: such a constraint is read off its own text. A clause is visible text without
  a comma, so the clauses are found again; in a clause the operator ends where the first digit
  stands, and a final `.*` is printed just where it says nothing new.
* `constraint_text_canonical`: so the text that is written for a constraint stands for all texts
  that spell it.
-/

namespace Depsolve

open Version (tagChars isTag dottedWords)

/-! ### Versions of clauses -/

namespace PartialVersion

variable {input body : List Char} {p : PartialVersion} {wildcard : Bool}

/-- A component is given only behind the one in front of it, and a tag only behind all. -/
structure WellFormed (p : PartialVersion) : Prop where
  minor : p.patch.isSome → p.minor.isSome
  tag : ∀ tag, p.prerelease = some tag → isTag tag.toList = true
  patch : p.prerelease.isSome → p.patch.isSome

/-- The components that are given. -/
def words (p : PartialVersion) : List UInt64 := p.major :: (p.minor.toList ++ p.patch.toList)

theorem length_words_le (p : PartialVersion) : p.words.length ≤ 3 := by
  cases hminor : p.minor <;> cases hpatch : p.patch <;> simp [words, hminor, hpatch]

theorem WellFormed.getElem?_words (h : p.WellFormed) :
    p.words[1]? = p.minor ∧ p.words[2]? = p.patch := by
  cases hminor : p.minor with
  | none =>
    have hpatch : p.patch = none := by
      rw [← Option.not_isSome_iff_eq_none]
      intro hpatch
      simpa [hminor] using h.minor hpatch
    simp [words, hminor, hpatch]
  | some minor => cases hpatch : p.patch <;> simp [words, hminor, hpatch]

/-- The version of a clause is components, a tag only behind three of them, and a final `.*`
only where one of them is missing. -/
theorem readChars_eq_ok :
    readChars input = .ok (p, wildcard) ↔ ∃ body core numbers,
      dropWildcard input = (body, wildcard) ∧ '+' ∉ body ∧
      Version.splitPrerelease body = .ok (core, p.prerelease) ∧
      Version.readComponents core input = .ok numbers ∧
      (wildcard = true → p.prerelease = none ∧ numbers.length ≠ 3) ∧
      (p.prerelease.isSome → 3 ≤ numbers.length) ∧
      p.major = numbers[0]?.getD 0 ∧ p.minor = numbers[1]? ∧ p.patch = numbers[2]? := by
  rw [readChars]
  rcases hdrop : dropWildcard input with ⟨body, final⟩
  simp only [ite_throw_eq_ok, bind_eq_ok, Prod.exists]
  constructor
  · rintro ⟨hplus, core, prerelease, hprerelease, hwild, numbers, hnumbers, hcount, heq⟩
    cases heq
    simp only [Bool.and_eq_true, Option.isSome_iff_ne_none, Bool.or_eq_true, beq_iff_eq,
      decide_eq_true_eq, not_and, not_or, not_not, Nat.not_lt] at hwild hcount
    exact ⟨body, core, numbers, rfl, mt List.contains_iff_mem.mpr hplus, hprerelease, hnumbers,
      fun h => ⟨hwild h, hcount.1 h⟩, fun h => hcount.2 (Option.isSome_iff_ne_none.mp h), rfl,
      rfl, rfl⟩
  · rintro ⟨body, core, numbers, hbody, hplus, hprerelease, hnumbers, hwild, htag, hmajor, hminor,
      hpatch⟩
    cases hbody
    refine ⟨mt List.contains_iff_mem.mp hplus, core, p.prerelease, hprerelease, ?_, numbers,
      hnumbers, ?_, ?_⟩
    · rw [Bool.and_eq_true]
      rintro ⟨hw, hsome⟩
      rw [(hwild hw).1] at hsome
      cases hsome
    · rw [Bool.or_eq_true, Bool.and_eq_true, Bool.and_eq_true, beq_iff_eq, decide_eq_true_eq]
      rintro (⟨hw, hthree⟩ | ⟨hsome, hless⟩)
      · exact (hwild hw).2 hthree
      · exact Nat.not_lt.mpr (htag hsome) hless
    · rw [← hmajor, ← hminor, ← hpatch]
      rfl

/-- What is read is well formed. -/
theorem wellFormed_of_readChars (h : readChars input = .ok (p, wildcard)) : p.WellFormed := by
  obtain ⟨body, core, numbers, -, -, hprerelease, -, -, htag, -, hminor, hpatch⟩ :=
    readChars_eq_ok.mp h
  refine ⟨fun h => ?_, (Version.splitPrerelease_eq_ok.mp hprerelease).2.2, fun h => ?_⟩
  · rw [hpatch, isSome_getElem?] at h
    rw [hminor, isSome_getElem?]
    omega
  · rw [hpatch, isSome_getElem?]
    exact htag h

theorem dropWildcard_of_not_mem (h : '*' ∉ body) : dropWildcard body = (body, false) := by
  unfold dropWildcard
  split
  · rename_i rest heq
    exact absurd (List.mem_reverse.mp (heq ▸ List.mem_cons_self)) h
  · rfl

theorem dropWildcard_append (body : List Char) :
    dropWildcard (body ++ ['.', '*']) = (body, true) := by
  simp [dropWildcard]

theorem dottedWords_words (p : PartialVersion) :
    dottedWords p.words =
      Text.wordDecimal p.major ++ Comparator.dotted p.minor ++ Comparator.dotted p.patch := by
  cases hminor : p.minor <;> cases hpatch : p.patch <;>
    simp [words, hminor, hpatch, dottedWords, List.intercalate, Comparator.dotted]

/-- The characters of a version with its tag. -/
def chars (p : PartialVersion) : List Char := dottedWords p.words ++ tagChars '-' p.prerelease

/-- A printed version begins with a digit. -/
theorem exists_chars_eq_cons (p : PartialVersion) :
    ∃ c cs, p.chars = c :: cs ∧ c.isDigit = true := by
  obtain ⟨c, cs, hcs, hc⟩ := Text.exists_wordDecimal_eq_cons p.major
  rw [chars, dottedWords_words, hcs]
  exact ⟨c, _, rfl, hc⟩

/-- A printed version has identifier characters, dashes and dots. -/
theorem WellFormed.not_mem_chars (h : p.WellFormed) {c : Char} (hdash : c ≠ '-') (hdot : c ≠ '.')
    (hc : Version.isIdentifierChar c = false) : c ∉ p.chars := by
  rw [chars, List.mem_append, not_or]
  exact ⟨Version.not_mem_dottedWords hdot (Version.isDigit_eq_false hc),
    Version.not_mem_tagChars h.tag hdash hdot hc⟩

theorem WellFormed.all_isVisible_chars (h : p.WellFormed) :
    p.chars.all Text.isVisible = true := by
  rw [chars, List.all_append, Version.all_isVisible_dottedWords,
    Version.all_isVisible_tagChars (by decide) h.tag]
  rfl

theorem WellFormed.readChars_chars (h : p.WellFormed) : readChars p.chars = .ok (p, false) := by
  refine readChars_eq_ok.mpr ⟨_, _, p.words, dropWildcard_of_not_mem ?_, ?_,
    Version.splitPrerelease_eq_ok.mpr
      ⟨rfl, Version.not_mem_dottedWords (by decide) (by decide), h.tag⟩,
    Version.readComponents_dottedWords (List.cons_ne_nil _ _) p.length_words_le _,
    fun hw => absurd hw Bool.false_ne_true, fun hsome => ?_, rfl, h.getElem?_words.1.symm,
    h.getElem?_words.2.symm⟩
  · exact h.not_mem_chars (by decide) (by decide) (by decide)
  · exact h.not_mem_chars (by decide) (by decide) (by decide)
  · have hpatch := h.patch hsome
    rw [← h.getElem?_words.2, isSome_getElem?] at hpatch
    exact hpatch

/-- A version without its last component may be followed by `.*`. -/
theorem WellFormed.readChars_chars_wildcard (h : p.WellFormed) (hpatch : p.patch = none) :
    readChars (p.chars ++ ['.', '*']) = .ok (p, true) := by
  have hnone : p.prerelease = none := by
    rw [← Option.not_isSome_iff_eq_none]
    intro hsome
    simpa [hpatch] using h.patch hsome
  have hchars : p.chars = dottedWords p.words := by
    rw [chars, hnone, tagChars, List.append_nil]
  have hlength : p.words.length ≠ 3 := by
    have hthird := h.getElem?_words.2
    rw [hpatch, List.getElem?_eq_none_iff] at hthird
    omega
  have hsplit : Version.splitPrerelease (dottedWords p.words) = .ok (dottedWords p.words, none) :=
    Version.splitPrerelease_eq_ok.mpr ⟨(List.append_nil _).symm,
      Version.not_mem_dottedWords (by decide) (by decide), fun t ht => by cases ht⟩
  refine readChars_eq_ok.mpr ⟨_, _, p.words, dropWildcard_append _, ?_, ?_,
    Version.readComponents_dottedWords (List.cons_ne_nil _ _) p.length_words_le _,
    fun _ => ⟨hnone, hlength⟩, fun hsome => ?_, rfl, h.getElem?_words.1.symm,
    h.getElem?_words.2.symm⟩
  · rw [hchars]
    exact Version.not_mem_dottedWords (by decide) (by decide)
  · rw [hchars, hnone]
    exact hsplit
  · rw [hnone] at hsome
    cases hsome

end PartialVersion

/-! ### Clauses -/

theorem Operator.split_mark {op : Operator} (hop : op ≠ .wildcard) {c : Char}
    (hc : c.isDigit = true) (cs : List Char) : split (op.mark ++ c :: cs) = (op, c :: cs) := by
  have hne : c ≠ '=' := by
    rintro rfl
    cases hc
  cases op <;> simp_all [mark, split]

theorem Operator.split_ne_wildcard (cs : List Char) : (split cs).1 ≠ .wildcard := by
  unfold split
  split <;> simp

namespace Comparator

variable {whole clause : List Char} {c : Comparator}

/-- A clause that is no wildcard has a well-formed version, and one that asks for a compatible
release fixes more than the major component. -/
inductive WellFormed : Comparator → Prop where
  | any : WellFormed any
  | versioned {op : Operator} {version : PartialVersion} (hop : op ≠ .wildcard)
      (hversion : version.WellFormed) (hminor : op = .compatible → version.minor.isSome) :
      WellFormed ⟨op, version⟩

/-- A clause is a star, or an operator and a version, where only the operators that ask for
agreement let the version end in `.*`. -/
theorem readChars_eq_ok :
    readChars whole clause = .ok c ↔ (clause = ['*'] ∧ c = any) ∨
      (clause ≠ [] ∧ clause ≠ ['*'] ∧ ∃ rest wildcard,
        Operator.split clause = (c.op, rest) ∧ Text.trimChars rest ≠ [] ∧
        PartialVersion.readChars (Text.trimChars rest) = .ok (c.version, wildcard) ∧
        (wildcard = true → c.op.allowsWildcard = true) ∧
        (c.op = .compatible → c.version.minor.isSome)) := by
  unfold readChars
  rcases hsplit : Operator.split clause with ⟨op, rest⟩
  simp only [ite_error_eq_ok]
  by_cases hstar : clause = ['*']
  · rw [if_pos hstar]
    constructor
    · rintro ⟨-, h⟩
      cases h
      exact .inl ⟨hstar, rfl⟩
    · rintro (⟨-, rfl⟩ | ⟨-, h, -⟩)
      · exact ⟨by simp [hstar], rfl⟩
      · exact absurd hstar h
  · rw [if_neg hstar, ite_error_eq_ok]
    cases hversion : PartialVersion.readChars (Text.trimChars rest) with
    | error e =>
      constructor
      · rintro ⟨-, -, h⟩
        cases h
      · rintro (⟨h, -⟩ | ⟨-, -, rest, wildcard, heq, -, hread, -⟩)
        · exact absurd h hstar
        · cases heq
          rw [hversion] at hread
          cases hread
    | ok read =>
      obtain ⟨version, final⟩ := read
      simp only [ite_error_eq_ok]
      constructor
      · rintro ⟨hempty, hbody, hwild, hcompatible, heq⟩
        cases heq
        simp only [Bool.and_eq_true, Bool.not_eq_true', not_and, Bool.not_eq_false, beq_iff_eq,
          Option.isNone_iff_eq_none] at hwild hcompatible
        exact .inr ⟨mt List.isEmpty_iff.mpr hempty, hstar, rest, final, rfl,
          mt List.isEmpty_iff.mpr hbody, hversion, hwild,
          fun h => Option.isSome_iff_ne_none.mpr (hcompatible h)⟩
      · rintro (⟨h, -⟩ | ⟨hne, -, rest, wildcard, heq, hbody, hread, hwild, hcompatible⟩)
        · exact absurd h hstar
        · cases heq
          rw [hversion] at hread
          cases hread
          refine ⟨mt List.isEmpty_iff.mp hne, mt List.isEmpty_iff.mp hbody, ?_, ?_, rfl⟩
          · simpa using hwild
          · simpa [Option.isSome_iff_ne_none] using hcompatible

theorem wellFormed_of_readChars (h : readChars whole clause = .ok c) : c.WellFormed := by
  rcases readChars_eq_ok.mp h with ⟨-, rfl⟩ | ⟨-, -, rest, wildcard, hsplit, -, hversion, -, hminor⟩
  · exact .any
  · have hop := Operator.split_ne_wildcard clause
    rw [hsplit] at hop
    exact .versioned hop (PartialVersion.wellFormed_of_readChars hversion) hminor

/-- What stands behind the version of a printed clause. -/
def finalChars (op : Operator) (version : PartialVersion) : List Char :=
  if op.allowsWildcard && version.patch.isNone then ['.', '*'] else []

theorem chars_versioned {op : Operator} {version : PartialVersion} (hop : op ≠ .wildcard)
    (hversion : version.WellFormed) :
    chars ⟨op, version⟩ = op.mark ++ (version.chars ++ finalChars op version) := by
  have htag : finalChars op version ++ tagChars '-' version.prerelease =
      tagChars '-' version.prerelease ++ finalChars op version := by
    cases htag : version.prerelease with
    | none => rw [tagChars, List.append_nil, List.nil_append]
    | some tag =>
      have hpatch := Option.isNone_eq_false_iff.mpr (hversion.patch (by rw [htag]; rfl))
      rw [finalChars, hpatch, Bool.and_false, if_neg Bool.false_ne_true, List.append_nil,
        List.nil_append]
  rw [chars, if_neg (by simpa using hop), PartialVersion.chars, List.append_assoc (dottedWords _),
    ← htag, PartialVersion.dottedWords_words]
  simp only [finalChars, List.append_assoc]

theorem all_isVisible_finalChars (op : Operator) (version : PartialVersion) :
    (finalChars op version).all Text.isVisible = true := by
  unfold finalChars
  split <;> decide

theorem WellFormed.all_isVisible_chars (h : c.WellFormed) :
    c.chars.all Text.isVisible = true := by
  cases h with
  | any => decide
  | @versioned op version hop hversion =>
    have hmark : op.mark.all Text.isVisible = true := by cases op <;> decide
    rw [chars_versioned hop hversion, List.all_append, List.all_append, hmark,
      hversion.all_isVisible_chars, all_isVisible_finalChars]
    rfl

theorem WellFormed.comma_not_mem_chars (h : c.WellFormed) : ',' ∉ c.chars := by
  cases h with
  | any => decide
  | @versioned op version hop hversion =>
    have hmark : ',' ∉ op.mark := by cases op <;> decide
    have hfinal : ',' ∉ finalChars op version := by
      unfold finalChars
      split <;> decide
    rw [chars_versioned hop hversion, List.mem_append, List.mem_append, not_or, not_or]
    exact ⟨hmark, hversion.not_mem_chars (by decide) (by decide) (by decide), hfinal⟩

/-- A printed version is read with a final `.*` just where one is printed. -/
theorem readChars_finalChars {op : Operator} {version : PartialVersion}
    (hversion : version.WellFormed) :
    PartialVersion.readChars (version.chars ++ finalChars op version) =
      .ok (version, op.allowsWildcard && version.patch.isNone) := by
  unfold finalChars
  split
  · rename_i hfinal
    rw [hfinal]
    exact hversion.readChars_chars_wildcard
      (Option.isNone_iff_eq_none.mp (Bool.and_eq_true_iff.mp hfinal).2)
  · rename_i hfinal
    rw [Bool.eq_false_iff.mpr hfinal, List.append_nil]
    exact hversion.readChars_chars

/-- A clause is read off its own characters. -/
theorem WellFormed.readChars_chars (h : c.WellFormed) (whole : List Char) :
    readChars whole c.chars = .ok c := by
  cases h with
  | any => rfl
  | @versioned op version hop hversion hminor =>
    obtain ⟨d, ds, hd, hdigit⟩ := version.exists_chars_eq_cons
    have htrim : Text.trimChars (version.chars ++ finalChars op version) =
        version.chars ++ finalChars op version := by
      refine Text.trimChars_of_all_isVisible ?_
      rw [List.all_append, hversion.all_isVisible_chars, all_isVisible_finalChars]
      rfl
    have hmem : d ∈ op.mark ++ (version.chars ++ finalChars op version) := by simp [hd]
    rw [chars_versioned hop hversion]
    refine readChars_eq_ok.mpr (.inr ⟨List.ne_nil_of_mem hmem, fun hstar => ?_,
      version.chars ++ finalChars op version, op.allowsWildcard && version.patch.isNone, ?_, ?_,
      ?_, fun hfinal => (Bool.and_eq_true_iff.mp hfinal).1, hminor⟩)
    · rw [hstar, List.mem_singleton] at hmem
      rw [hmem] at hdigit
      cases hdigit
    · rw [hd, List.cons_append]
      exact Operator.split_mark hop hdigit _
    · rw [htrim, hd]
      exact List.cons_ne_nil _ _
    · rw [htrim]
      exact readChars_finalChars hversion

end Comparator

/-! ### Constraints -/

namespace Constraint

variable {r : Constraint}

/-- A constraint has a clause, and its clauses are well formed. -/
structure WellFormed (r : Constraint) : Prop where
  nonempty : r.comparators ≠ []
  clauses : ∀ c ∈ r.comparators, c.WellFormed

theorem wellFormed_any : any.WellFormed where
  nonempty := List.cons_ne_nil _ _
  clauses c hc := by
    rw [List.mem_singleton.mp hc]
    exact .any

theorem WellFormed.splitOn_chars (h : r.WellFormed) :
    Text.splitOn ',' r.chars = r.comparators.map Comparator.chars := by
  refine Text.splitOn_intercalate (by simpa using h.nonempty) fun clause hclause => ?_
  obtain ⟨c, hc, rfl⟩ := List.mem_map.mp hclause
  exact (h.clauses c hc).comma_not_mem_chars

theorem WellFormed.trimChars_chars (h : r.WellFormed) : Text.trimChars r.chars = r.chars := by
  refine Text.trimChars_of_all_isVisible (List.all_eq_true.mpr fun d hd => ?_)
  rcases Text.mem_intercalate_cases hd with rfl | ⟨clause, hclause, hd⟩
  · decide
  · obtain ⟨c, hc, rfl⟩ := List.mem_map.mp hclause
    exact List.all_eq_true.mp (h.clauses c hc).all_isVisible_chars d hd

/-- The clauses of a constraint are read one by one. -/
theorem WellFormed.readClauses (h : r.WellFormed) (whole : List Char) :
    ((Text.splitOn ',' r.chars).mapM fun clause =>
      Comparator.readChars whole (Text.trimChars clause)) = .ok r.comparators := by
  rw [h.splitOn_chars, mapM_eq_ok, List.forall₂_map_left_iff, List.forall₂_same]
  intro c hc
  rw [Text.trimChars_of_all_isVisible (h.clauses c hc).all_isVisible_chars,
    (h.clauses c hc).readChars_chars]

/-- A constraint is read off its own text. -/
theorem WellFormed.parse_render (h : r.WellFormed) : parse r.render = .ok r := by
  have hclauses := h.readClauses r.chars
  rw [parse, render, String.toList_ofList, h.trimChars_chars]
  split
  · -- the texts that are read on the spot are read alike clause by clause
    rename_i hwhole
    rcases Bool.or_eq_true_iff.mp hwhole with hwhole | hwhole
    · rw [List.isEmpty_iff.mp hwhole] at hclauses
      cases hclauses
    · rw [decide_eq_true_eq.mp hwhole] at hclauses
      obtain ⟨comparators⟩ := r
      cases hclauses
      rfl
  · rw [hclauses]
    rfl

/-- Every constraint that is read is well formed. -/
theorem wellFormed_of_parse {text : String} (h : parse text = .ok r) : r.WellFormed := by
  rw [parse] at h
  split at h
  · cases h
    exact wellFormed_any
  · obtain ⟨comparators, hclauses, heq⟩ := bind_eq_ok.mp h
    cases heq
    constructor
    · rintro rfl
      exact Text.splitOn_ne_nil _ _ (List.forall₂_nil_right_iff.mp (mapM_eq_ok.mp hclauses))
    · intro c hc
      obtain ⟨clause, -, hclause⟩ := exists_of_mem_mapM hclauses hc
      exact Comparator.wellFormed_of_readChars hclause

/-- The constraint that asks for a version leaves none of its components out. -/
theorem wellFormed_exactly {v : Version} (h : v.WellFormed) : (exactly v).WellFormed where
  nonempty := List.cons_ne_nil _ _
  clauses c hc := by
    rw [List.mem_singleton.mp hc]
    refine .versioned (fun hop => by cases hop) ⟨fun _ => rfl, h.prerelease, fun _ => rfl⟩ ?_
    rintro ⟨⟩

end Constraint

/-- The written form of constraints is canonical. A constraint that is read off any text is read
off its written form, so two texts spell the same constraint just if they are written alike; and
the constraint that asks for a version that was read is read off its written form. -/
theorem constraint_text_canonical :
    (∀ (text : String) (r : Constraint), Constraint.parse text = .ok r →
      Constraint.parse r.render = .ok r) ∧
    (∀ (text other : String) (r s : Constraint), Constraint.parse text = .ok r →
      Constraint.parse other = .ok s → (r.render = s.render ↔ r = s)) ∧
    ∀ (text : String) (v : Version), Version.parse text = .ok v →
      Constraint.parse (Constraint.exactly v).render = .ok (Constraint.exactly v) := by
  have hback : ∀ (text : String) (r : Constraint), Constraint.parse text = .ok r →
      Constraint.parse r.render = .ok r :=
    fun _ _ hread => (Constraint.wellFormed_of_parse hread).parse_render
  refine ⟨hback, fun text other r s hr hs => ⟨fun hrender => ?_, congrArg _⟩, fun text v hread => ?_⟩
  · have hsame := hback text r hr
    rw [hrender, hback other s hs] at hsame
    exact (Except.ok.inj hsame).symm
  · exact (Constraint.wellFormed_exactly (Version.wellFormed_of_parse hread)).parse_render

/-- Four clauses with white space and zeros that do not count are read off
`>=1.2,~=2.3.4-rc-1.x,!=1.*,==7.*`, which is also the written form of another spelling. -/
theorem constraint_text_canonical_fourClauses :
    ∃ r s v, Constraint.parse " >= 1.02,~=2.3.4-rc-1.x ,!= 1.*, 7" = .ok r ∧
      Constraint.parse ">=1.2,~=02.3.4-rc-1.x,!=1,=7" = .ok s ∧
      Version.parse " v3.11-rc-1+b-5 " = .ok v ∧
      Constraint.parse r.render = .ok r ∧ (r.render = s.render ↔ r = s) ∧
      Constraint.parse (Constraint.exactly v).render = .ok (Constraint.exactly v) := by
  have hr : Constraint.parse " >= 1.02,~=2.3.4-rc-1.x ,!= 1.*, 7" =
      .ok ⟨[⟨.greaterEq, 1, some 2, none, none⟩, ⟨.compatible, 2, some 3, some 4, some "rc-1.x"⟩,
        ⟨.notEqual, 1, none, none, none⟩, ⟨.exact, 7, none, none, none⟩]⟩ := by decide +kernel
  have hs : Constraint.parse ">=1.2,~=02.3.4-rc-1.x,!=1,=7" =
      .ok ⟨[⟨.greaterEq, 1, some 2, none, none⟩, ⟨.compatible, 2, some 3, some 4, some "rc-1.x"⟩,
        ⟨.notEqual, 1, none, none, none⟩, ⟨.exact, 7, none, none, none⟩]⟩ := by decide +kernel
  have hv : Version.parse " v3.11-rc-1+b-5 " = .ok ⟨3, 11, 0, some "rc-1", some "b-5"⟩ := by
    decide +kernel
  exact ⟨_, _, _, hr, hs, hv, constraint_text_canonical.1 _ _ hr,
    constraint_text_canonical.2.1 _ _ _ _ hr hs, constraint_text_canonical.2.2 _ _ hv⟩

end Depsolve
