import Depsolve.Proofs.Constraint.Text
import Depsolve.Proofs.Version.Grammar

/-!
Which texts are constraints.

Reading a clause tries the operators one after another, some of which begin like others, and then
takes a final `.*` off before it looks for a dash. The grammar puts a clause together from a mark,
blanks, components and what follows them.

* `Operator.split_append` and `Operator.exists_mark_of_split`: the operator that is split off is the
  one that the mark spells, since no version begins with a sign that could go on with a mark.
* `PartialVersion.Spells`, `Comparator.Spells` and `Constraint.Spells` are the grammar, and
  `readChars_eq_ok_iff_spells`, `parse_eq_ok_iff_spells` say that what is read is what is spelled.
* `constraint_grammar_exact` puts them together, with the form of every failure.
-/

namespace Depsolve

open Version (Core IsDotted isTag_iff tagChars)

/-! ### Operators -/

namespace Operator

variable {op : Operator} {cs rest mark : List Char} {c : Char}

/-- The marks that spell an operator in front of a version. Agreement is asked for also without a
mark, and a wildcard has no version behind it. -/
def spellings : Operator → List (List Char)
  | .exact => [['=', '='], ['='], []]
  | .notEqual => [['!', '=']]
  | .greater => [['>']]
  | .greaterEq => [['>', '=']]
  | .less => [['<']]
  | .lessEq => [['<', '=']]
  | .tilde => [['~']]
  | .caret => [['^']]
  | .compatible => [['~', '=']]
  | .wildcard => []

/-- The characters of marks. -/
def signs : List Char := ['~', '=', '!', '>', '<', '^']

theorem allowsWildcard_iff : op.allowsWildcard = true ↔ op = .exact ∨ op = .notEqual := by
  simp [allowsWildcard]

theorem not_mem_signs (h : c.isDigit = true ∨ Text.isBlank c = true) : c ∉ signs := by
  intro hc
  have hsigns : signs.all (fun sign => !sign.isDigit && Text.isVisible sign) = true := by decide
  have hsign := List.all_eq_true.mp hsigns c hc
  rw [Bool.and_eq_true, Bool.not_eq_true'] at hsign
  rcases h with h | h
  · rw [hsign.1] at h
    cases h
  · rw [Text.isBlank_of_isVisible hsign.2] at h
    cases h

/-- What is split off is a mark of the operator. -/
theorem exists_mark_of_split (h : split cs = (op, rest)) :
    ∃ mark ∈ op.spellings, cs = mark ++ rest := by
  unfold split at h
  split at h <;> cases h <;> simp [spellings]

/-- A mark is split off whole where no sign stands behind it. -/
theorem split_append (hmark : mark ∈ op.spellings) (hc : c ∉ signs) (cs : List Char) :
    split (mark ++ c :: cs) = (op, c :: cs) := by
  simp only [signs, List.mem_cons, List.not_mem_nil, or_false, not_or] at hc
  cases op <;> simp only [spellings, List.mem_cons, List.not_mem_nil, or_false] at hmark
  case exact =>
    rcases hmark with rfl | rfl | rfl
    · rfl
    · simp [split, hc]
    · simp [split, hc]
  all_goals
    subst hmark
    simp [split, hc]

end Operator

/-! ### Versions of clauses -/

namespace PartialVersion

variable {input body : List Char} {p : PartialVersion} {wildcard : Bool}

/-- The spellings of a version in a clause: components, a tag behind all three of them, or `.*` in
place of one or two. -/
inductive Spells : List Char → PartialVersion → Bool → Prop where
  | plain {core : List Char} {major : UInt64} {minor patch : Option UInt64}
      (hcore : Core core major minor patch) : Spells core ⟨major, minor, patch, none⟩ false
  | tagged {core : List Char} {major minor patch : UInt64} {tag : String}
      (hcore : Core core major (some minor) (some patch)) (htag : IsDotted tag) :
      Spells (core ++ '-' :: tag.toList) ⟨major, some minor, some patch, some tag⟩ false
  | wildcard {core : List Char} {major : UInt64} {minor : Option UInt64}
      (hcore : Core core major minor none) :
      Spells (core ++ ['.', '*']) ⟨major, minor, none, none⟩ true

theorem eq_append_of_dropWildcard (h : dropWildcard input = (body, wildcard)) :
    input = body ++ if wildcard then ['.', '*'] else [] := by
  unfold dropWildcard at h
  split at h
  · rename_i rest heq
    cases h
    rw [← List.reverse_reverse input, heq]
    simp
  · cases h
    simp

/-- What the checks let pass has its tag or its `.*` where the grammar allows it. -/
theorem spells_of_readChars (h : readChars input = .ok (p, wildcard)) :
    Spells input p wildcard := by
  obtain ⟨body, core, numbers, hdrop, -, hprerelease, hnumbers, hwild, hthree, hmajor, hminor,
    hpatch⟩ := readChars_eq_ok.mp h
  obtain ⟨rfl, -, htag⟩ := Version.splitPrerelease_eq_ok.mp hprerelease
  obtain ⟨major, minor, patch, hcore, rfl⟩ := Version.readComponents_eq_ok.mp hnumbers
  rw [hcore.getElem?.1] at hminor
  rw [hcore.getElem?.2] at hpatch
  rw [eq_append_of_dropWildcard hdrop]
  obtain ⟨pmajor, pminor, ppatch, prerelease⟩ := p
  simp only [List.getElem?_cons_zero, Option.getD_some] at hmajor hminor hpatch
  subst hmajor hminor hpatch
  cases wildcard with
  | true =>
    obtain ⟨hnone, hlength⟩ := hwild rfl
    simp only at hnone
    subst hnone
    cases hcore with
    | patch hmajor hminor hpatch => exact absurd rfl hlength
    | major hmajor => simpa [tagChars] using Spells.wildcard (.major hmajor)
    | minor hmajor hminor => simpa [tagChars] using Spells.wildcard (.minor hmajor hminor)
  | false =>
    cases prerelease with
    | none => simpa [tagChars] using Spells.plain hcore
    | some tag =>
      have hlength := hthree rfl
      have hdotted : IsDotted tag := isTag_iff.mp (htag tag rfl)
      cases hcore with
      | major hmajor => exact absurd hlength (by simp)
      | minor hmajor hminor => exact absurd hlength (by simp)
      | patch hmajor hminor hpatch =>
        simpa [tagChars] using Spells.tagged (.patch hmajor hminor hpatch) hdotted

/-- A version of a clause is visible text, so no blank in front of it belongs to it. -/
theorem Spells.all_isVisible (h : Spells input p wildcard) :
    input.all Text.isVisible = true := by
  have hvisible {core : List Char} {major : UInt64} {minor patch : Option UInt64}
      (hcore : Core core major minor patch) : core.all Text.isVisible = true := by
    refine List.all_eq_true.mpr fun c hc => ?_
    rcases hcore.eq_dot_or_isDigit hc with rfl | hdigit
    · decide
    · refine Text.isVisible_of_isAlphanum ?_
      rw [Char.isAlphanum, hdigit, Bool.or_true]
  cases h with
  | plain hcore => exact hvisible hcore
  | tagged hcore htag =>
    rw [List.all_append, List.all_cons, hvisible hcore,
      Version.all_isVisible_of_isTag (isTag_iff.mpr htag)]
    decide
  | wildcard hcore =>
    rw [List.all_append, hvisible hcore]
    decide

/-- A version of a clause begins with a digit. -/
theorem Spells.exists_cons (h : Spells input p wildcard) :
    ∃ c rest, input = c :: rest ∧ c.isDigit = true := by
  cases h with
  | plain hcore => exact hcore.exists_cons
  | tagged hcore _ => exact Version.exists_cons_append hcore.exists_cons _
  | wildcard hcore => exact Version.exists_cons_append hcore.exists_cons _

theorem Spells.readChars_eq_ok (h : Spells input p wildcard) :
    readChars input = .ok (p, wildcard) := by
  have htagless (core : List Char) : core = core ++ tagChars '-' none := (List.append_nil core).symm
  rw [PartialVersion.readChars_eq_ok]
  cases h with
  | @plain _ major minor patch hcore =>
    refine ⟨input, input, major :: (minor.toList ++ patch.toList),
      dropWildcard_of_not_mem (hcore.not_mem (by decide) (by decide)),
      hcore.not_mem (by decide) (by decide),
      Version.splitPrerelease_eq_ok.mpr
        ⟨htagless input, hcore.not_mem (by decide) (by decide), by simp⟩,
      Version.readComponents_eq_ok.mpr ⟨major, minor, patch, hcore, rfl⟩, by simp, by simp, rfl,
      hcore.getElem?.1.symm, hcore.getElem?.2.symm⟩
  | @tagged core major minor patch tag hcore htag =>
    have hisTag : ∀ t, some tag = some t → Version.isTag t.toList = true := by
      rintro t ⟨⟩
      exact isTag_iff.mpr htag
    refine ⟨core ++ '-' :: tag.toList, core, [major, minor, patch],
      dropWildcard_of_not_mem
        (hcore.not_mem_append_tagChars hisTag (by decide) (by decide) (by decide)),
      hcore.not_mem_append_tagChars hisTag (by decide) (by decide) (by decide),
      Version.splitPrerelease_eq_ok.mpr ⟨rfl, hcore.not_mem (by decide) (by decide), hisTag⟩,
      Version.readComponents_eq_ok.mpr ⟨major, some minor, some patch, hcore, rfl⟩, by simp,
      by simp, rfl, rfl, rfl⟩
  | @wildcard core major minor hcore =>
    refine ⟨core, core, major :: minor.toList, dropWildcard_append core,
      hcore.not_mem (by decide) (by decide),
      Version.splitPrerelease_eq_ok.mpr
        ⟨htagless core, hcore.not_mem (by decide) (by decide), by simp⟩,
      Version.readComponents_eq_ok.mpr ⟨major, minor, none, hcore, by simp⟩,
      fun _ => ⟨rfl, ?_⟩, by simp, rfl, ?_, ?_⟩
    · cases minor <;> simp
    · cases minor <;> rfl
    · cases minor <;> rfl

theorem readChars_eq_ok_iff_spells :
    readChars input = .ok (p, wildcard) ↔ Spells input p wildcard :=
  ⟨spells_of_readChars, Spells.readChars_eq_ok⟩

end PartialVersion

/-! ### Clauses -/

namespace Comparator

variable {whole clause : List Char} {c : Comparator}

/-- The spellings of a clause: a star, or a mark, blanks and a version. Only where agreement is
asked for the version may end in `.*`, and a compatible release needs a minor component. -/
inductive Spells : List Char → Comparator → Prop where
  | any : Spells ['*'] any
  | versioned {op : Operator} {mark blanks body : List Char} {version : PartialVersion}
      {wildcard : Bool} (hmark : mark ∈ op.spellings)
      (hblanks : ∀ c ∈ blanks, Text.isBlank c = true)
      (hversion : version.Spells body wildcard)
      (hwildcard : wildcard = true → op = .exact ∨ op = .notEqual)
      (hminor : op = .compatible → version.minor.isSome) :
      Spells (mark ++ blanks ++ body) ⟨op, version⟩

theorem spells_of_readChars (htrim : Text.trimChars clause = clause)
    (h : readChars whole clause = .ok c) : Spells clause c := by
  rcases readChars_eq_ok.mp h with ⟨rfl, rfl⟩ |
    ⟨-, -, rest, wildcard, hsplit, -, hversion, hwildcard, hminor⟩
  · exact .any
  · obtain ⟨mark, hmark, rfl⟩ := Operator.exists_mark_of_split hsplit
    obtain ⟨blanks, hrest, hblanks⟩ := Text.exists_blanks_of_trimChars_eq htrim
    rw [hrest, ← List.append_assoc]
    exact .versioned hmark hblanks (PartialVersion.readChars_eq_ok_iff_spells.mp hversion)
      (fun hw => Operator.allowsWildcard_iff.mp (hwildcard hw)) hminor

theorem Spells.readChars_eq_ok (h : Spells clause c) (whole : List Char) :
    readChars whole clause = .ok c := by
  cases h with
  | any => rfl
  | @versioned op mark blanks body version wildcard hmark hblanks hversion hwildcard hminor =>
    obtain ⟨d, ds, hbody, hdigit⟩ := hversion.exists_cons
    have hmem : d ∈ mark ++ blanks ++ body := by simp [hbody]
    have htrim : Text.trimChars (blanks ++ body) = body := by
      have hblank := Text.trimChars_append hblanks (List.forall_mem_nil _) body
      rwa [List.append_nil, Text.trimChars_of_all_isVisible hversion.all_isVisible] at hblank
    have hsplit : Operator.split (mark ++ blanks ++ body) = (op, blanks ++ body) := by
      rw [List.append_assoc]
      cases blanks with
      | nil =>
        rw [hbody]
        exact Operator.split_append hmark (Operator.not_mem_signs (.inl hdigit)) ds
      | cons b bs =>
        have hb : b ∉ Operator.signs := Operator.not_mem_signs (.inr (hblanks b List.mem_cons_self))
        exact Operator.split_append hmark hb (bs ++ body)
    refine Comparator.readChars_eq_ok.mpr (.inr ⟨List.ne_nil_of_mem hmem, fun hstar => ?_,
      blanks ++ body, wildcard, hsplit, ?_, ?_,
      fun hw => Operator.allowsWildcard_iff.mpr (hwildcard hw), hminor⟩)
    · rw [hstar, List.mem_singleton] at hmem
      rw [hmem] at hdigit
      cases hdigit
    · rw [htrim, hbody]
      exact List.cons_ne_nil _ _
    · rw [htrim]
      exact PartialVersion.readChars_eq_ok_iff_spells.mpr hversion

theorem readChars_eq_ok_iff_spells (htrim : Text.trimChars clause = clause) :
    readChars whole clause = .ok c ↔ Spells clause c :=
  ⟨spells_of_readChars htrim, fun h => h.readChars_eq_ok whole⟩

/-- A clause that is not read is reported with the whole text. -/
theorem exists_reason_of_readChars {e : VersionError} (h : readChars whole clause = .error e) :
    ∃ reason, e = .invalidConstraint (String.ofList whole) reason := by
  unfold readChars at h
  rcases hsplit : Operator.split clause with ⟨op, rest⟩
  simp only [hsplit] at h
  split at h
  · cases h
    exact ⟨_, rfl⟩
  · split at h
    · cases h
    · split at h
      · cases h
        exact ⟨_, rfl⟩
      · split at h
        · cases h
          exact ⟨_, rfl⟩
        · split at h
          · cases h
            exact ⟨_, rfl⟩
          · split at h <;> cases h
            exact ⟨_, rfl⟩

end Comparator

/-! ### Constraints -/

namespace Constraint

variable {r : Constraint} {text : String}

/-- The spellings of a constraint: nothing, which asks for nothing, or one or more clauses with
commas between them, where blanks around a clause do not count. -/
inductive Spells : List Char → Constraint → Prop where
  | empty : Spells [] any
  | clauses {pieces : List (List Char)} {comparators : List Comparator} (hne : pieces ≠ [])
      (hcomma : ∀ piece ∈ pieces, ',' ∉ piece)
      (hclauses : List.Forall₂ (fun piece c => Comparator.Spells (Text.trimChars piece) c)
        pieces comparators) :
      Spells (List.intercalate [','] pieces) ⟨comparators⟩

/-- A text is read as a constraint just if it spells it without the blanks at both ends. -/
theorem parse_eq_ok_iff_spells :
    parse text = .ok r ↔ Spells (Text.trimChars text.toList) r := by
  rw [parse]
  generalize Text.trimChars text.toList = input
  have hreads (pieces : List (List Char)) (comparators : List Comparator) :
      (pieces.mapM fun clause => Comparator.readChars input (Text.trimChars clause)) =
          .ok comparators ↔
        List.Forall₂ (fun piece c => Comparator.Spells (Text.trimChars piece) c)
          pieces comparators := by
    simp only [mapM_eq_ok,
      Comparator.readChars_eq_ok_iff_spells (Text.trimChars_trimChars _)]
  constructor
  · intro h
    split at h
    · rename_i hwhole
      cases h
      rcases Bool.or_eq_true_iff.mp hwhole with hwhole | hwhole
      · rw [List.isEmpty_iff.mp hwhole]
        exact .empty
      · have hstar : Spells (List.intercalate [','] [['*']]) ⟨[Comparator.any]⟩ :=
          .clauses (List.cons_ne_nil _ _) (by simp) (.cons .any .nil)
        rw [decide_eq_true_eq.mp hwhole]
        exact hstar
    · obtain ⟨comparators, hcomparators, heq⟩ := bind_eq_ok.mp h
      cases heq
      rw [← Text.intercalate_splitOn ',' input]
      exact .clauses (Text.splitOn_ne_nil ',' input) (fun _ => Text.not_mem_of_mem_splitOn)
        ((hreads _ _).mp hcomparators)
  · rintro (_ | @⟨pieces, comparators, hne, hcomma, hclauses⟩)
    · rfl
    · have hcomparators := (hreads (Text.splitOn ',' (List.intercalate [','] pieces))
        comparators).mpr (by rwa [Text.splitOn_intercalate hne hcomma])
      split
      · -- the texts that are read on the spot are read alike clause by clause
        rename_i hwhole
        rcases Bool.or_eq_true_iff.mp hwhole with hwhole | hwhole
        · rw [List.isEmpty_iff.mp hwhole] at hcomparators
          cases hcomparators
        · rw [decide_eq_true_eq.mp hwhole] at hcomparators
          cases hcomparators
          rfl
      · rw [hcomparators]
        rfl

/-- A text that is not read is reported as a constraint, without the blanks at its ends. -/
theorem exists_reason_of_parse {e : VersionError} (h : parse text = .error e) :
    ∃ reason, e = .invalidConstraint (Text.trim text) reason := by
  rw [parse] at h
  split at h
  · cases h
  · rcases bind_eq_error.mp h with h | ⟨comparators, -, h⟩
    · obtain ⟨clause, -, hclause⟩ := exists_of_mapM_error h
      exact Comparator.exists_reason_of_readChars hclause
    · cases h

end Constraint

/-- Reading constraints is exact. A text is read as a constraint just if the text without the white
space at both ends spells it, clause by clause in the order of the text; and a text that spells none
is refused as an invalid constraint, whichever of its parts is wrong. -/
theorem constraint_grammar_exact (text : String) :
    (∀ r, Constraint.parse text = .ok r ↔ Constraint.Spells (Text.trimChars text.toList) r) ∧
    ∀ e, Constraint.parse text = .error e →
      ∃ reason, e = .invalidConstraint (Text.trim text) reason :=
  ⟨fun _ => Constraint.parse_eq_ok_iff_spells, fun _ => Constraint.exists_reason_of_parse⟩

/-- A mark that begins like another, blanks, `.*` behind a version without a mark and a tag; and a
version that ends in `.*` where agreement is not asked for. -/
theorem constraint_grammar_exact_fourClauses :
    Constraint.Spells ">= 1.02,~=2.3.4-rc-1.x ,!=\t1.*, 7".toList
      ⟨[⟨.greaterEq, 1, some 2, none, none⟩, ⟨.compatible, 2, some 3, some 4, some "rc-1.x"⟩,
        ⟨.notEqual, 1, none, none, none⟩, ⟨.exact, 7, none, none, none⟩]⟩ ∧
    ∃ e, Constraint.parse " >=1.0.* " = .error e ∧
      ∃ reason, e = .invalidConstraint ">=1.0.*" reason := by
  have hread : Constraint.parse " >= 1.02,~=2.3.4-rc-1.x ,!=\t1.*, 7" =
      .ok ⟨[⟨.greaterEq, 1, some 2, none, none⟩, ⟨.compatible, 2, some 3, some 4, some "rc-1.x"⟩,
        ⟨.notEqual, 1, none, none, none⟩, ⟨.exact, 7, none, none, none⟩]⟩ := by decide +kernel
  have htrim : Text.trimChars " >= 1.02,~=2.3.4-rc-1.x ,!=\t1.*, 7".toList =
      ">= 1.02,~=2.3.4-rc-1.x ,!=\t1.*, 7".toList := by decide +kernel
  have hrefused : Constraint.parse " >=1.0.* " =
      .error (.invalidConstraint ">=1.0.*" "'.*' is only allowed with == or !=") := by
    decide +kernel
  have htrimRefused : Text.trim " >=1.0.* " = ">=1.0.*" := by decide +kernel
  constructor
  · rw [← htrim]
    exact ((constraint_grammar_exact _).1 _).mp hread
  · refine ⟨_, hrefused, ?_⟩
    rw [← htrimRefused]
    exact (constraint_grammar_exact _).2 _ hrefused

end Depsolve
