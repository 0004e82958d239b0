import Depsolve.Proofs.Version.Ties

/-!
Precedence and the rules of semantic versioning.

The rules compare prerelease tags identifier by identifier. What has nothing but digits is a
number, however long it is, and every number stands below every text. Versions follow these rules
as long as the numbers are words.

* `Identifier.semantic` and `Version.semanticTags` are the rules.
* `Identifier.Matched` says of two identifiers that a number beyond the words does no harm between
  them: one of them is a word, none is a number, or both are numbers with the same number of
  digits. `Identifier.order_eq_semantic` says that these are compared by the rules.
* `precedence_eq_semanticTags`: so are two versions that are read, if the identifiers that stand
  at one place of their tags are matched.
* `long_numerals_misordered`: without that they are not.
-/

namespace Depsolve

/-! ### The rules -/

namespace Identifier

/-- Nothing but digits, and at least one. -/
def isNumeral (i : Identifier) : Bool := !i.chars.isEmpty && i.chars.all Char.isDigit

/-- Identifier against identifier by the rules: numbers compare by value, texts by their
characters, and a number stands below a text. -/
def semantic (i j : Identifier) : Ordering :=
  match i.isNumeral, j.isNumeral with
  | true, true => compare (Text.digitsValue i.chars) (Text.digitsValue j.chars)
  | true, false => .lt
  | false, true => .gt
  | false, false => compare i.chars j.chars

/-- Two identifiers between which it makes no difference that words are bounded. -/
def Matched (i j : Identifier) : Prop :=
  i.number?.isSome = true ∨ j.number?.isSome = true ∨
    (i.isNumeral = false ∧ j.isNumeral = false) ∨
    (i.isNumeral = true ∧ j.isNumeral = true ∧ i.chars.length = j.chars.length)

instance (i j : Identifier) : Decidable (Matched i j) := by
  unfold Matched; infer_instance

end Identifier

/-- Tag against tag by the rules: a release stands above its prereleases, and of two tags the
first identifiers that differ decide, where a tag that is cut short stands below the longer
one. -/
def Version.semanticTags : Option String → Option String → Ordering
  | none, none => .eq
  | some _, none => .lt
  | none, some _ => .gt
  | some s, some t =>
    List.compareLex Identifier.semantic (Version.tagIdentifiers s) (Version.tagIdentifiers t)

/-! ### Identifiers -/

namespace Identifier

variable {i j : Identifier} {is js : List Identifier} {w : UInt64}

theorem isNumeral_iff :
    i.isNumeral = true ↔ i.chars ≠ [] ∧ ∀ c ∈ i.chars, c.isDigit = true := by
  simp [isNumeral]

/-- A word that is read without a sign is a number of that value. -/
theorem isNumeral_of_number? (hsign : '+' ∉ i.chars) (h : i.number? = some w) :
    i.isNumeral = true ∧ Text.digitsValue i.chars = w.toNat := by
  rw [number?_of_no_sign hsign] at h
  obtain ⟨hne, hdigits, hvalue⟩ := Text.word?_eq_some.mp h
  exact ⟨isNumeral_iff.mpr ⟨hne, hdigits⟩, hvalue⟩

/-- A number that is no word is beyond all words. -/
theorem toNat_lt_of_number?_eq_none (hsign : '+' ∉ i.chars) (h : i.number? = none)
    (hnumeral : i.isNumeral = true) (w : UInt64) : w.toNat < Text.digitsValue i.chars := by
  obtain ⟨hne, hdigits⟩ := isNumeral_iff.mp hnumeral
  by_contra hle
  have hlt : Text.digitsValue i.chars < UInt64.size :=
    (Nat.le_of_not_lt hle).trans_lt w.toNat_lt
  have hword : Text.word? i.chars = some (UInt64.ofNat (Text.digitsValue i.chars)) :=
    Text.word?_eq_some.mpr ⟨hne, hdigits, (UInt64.toNat_ofNat_of_lt hlt).symm⟩
  rw [number?_of_no_sign hsign, hword] at h
  cases h

/-- Matched identifiers are compared by the rules. -/
theorem order_eq_semantic (hi : '+' ∉ i.chars) (hj : '+' ∉ j.chars) (h : Matched i j) :
    i.order j = i.semantic j := by
  rw [order, semantic]
  cases hleft : i.number? with
  | some m =>
    obtain ⟨hinumeral, hivalue⟩ := isNumeral_of_number? hi hleft
    cases hright : j.number? with
    | some n =>
      obtain ⟨hjnumeral, hjvalue⟩ := isNumeral_of_number? hj hright
      simp only [hinumeral, hjnumeral, hivalue, hjvalue]
      exact UInt64.compare_eq_toNat_compare_toNat m n
    | none =>
      cases hjnumeral : j.isNumeral with
      | false => simp only [hinumeral]
      | true =>
        -- the number on the right is beyond the word on the left
        have hlt := toNat_lt_of_number?_eq_none hj hright hjnumeral m
        simp only [hinumeral, hivalue, Nat.compare_eq_lt.mpr hlt]
  | none =>
    cases hright : j.number? with
    | some n =>
      obtain ⟨hjnumeral, hjvalue⟩ := isNumeral_of_number? hj hright
      cases hinumeral : i.isNumeral with
      | false => simp only [hjnumeral]
      | true =>
        have hgt := toNat_lt_of_number?_eq_none hi hleft hinumeral n
        simp only [hjnumeral, hjvalue, Nat.compare_eq_gt.mpr hgt]
    | none =>
      rcases h with hsome | hsome | ⟨hinumeral, hjnumeral⟩ | ⟨hinumeral, hjnumeral, hlength⟩
      · rw [hleft] at hsome
        cases hsome
      · rw [hright] at hsome
        cases hsome
      · simp only [hinumeral, hjnumeral]
      · simp only [hinumeral, hjnumeral]
        exact (Text.compare_digitsValue (isNumeral_iff.mp hinumeral).2
          (isNumeral_iff.mp hjnumeral).2 hlength).symm

/-- Where the identifiers at each place are matched, lists of them are compared by the rules. -/
theorem walk_eq_compareLex (his : ∀ i ∈ is, '+' ∉ i.chars) (hjs : ∀ j ∈ js, '+' ∉ j.chars)
    (h : ∀ p ∈ is.zip js, Matched p.1 p.2) : walk is js = List.compareLex semantic is js := by
  induction is generalizing js with
  | nil => cases js <;> rfl
  | cons i is ih =>
    cases js with
    | nil => rfl
    | cons j js =>
      obtain ⟨hi, his⟩ := List.forall_mem_cons.mp his
      obtain ⟨hj, hjs⟩ := List.forall_mem_cons.mp hjs
      obtain ⟨hmatched, hrest⟩ := List.forall_mem_cons.mp h
      rw [walk, ih his hjs hrest, order_eq_semantic hi hj hmatched, List.compareLex]
      cases i.semantic j <;> rfl

end Identifier

/-! ### Versions -/

namespace Version

variable {a b : Version}

/-- Where the identifiers at each place are matched, tags are compared by the rules. -/
theorem orderTags_eq_semanticTags (ha : a.WellFormed) (hb : b.WellFormed)
    (h : ∀ p ∈ a.identifiers.zip b.identifiers, p.1.Matched p.2) :
    orderTags a.prerelease b.prerelease = semanticTags a.prerelease b.prerelease := by
  obtain ⟨_, _, _, left, _⟩ := a
  obtain ⟨_, _, _, right, _⟩ := b
  cases left with
  | none => cases right <;> rfl
  | some s =>
    cases right with
    | none => rfl
    | some t =>
      exact Identifier.walk_eq_compareLex (sign_not_mem_of_isTag (ha.prerelease s rfl))
        (sign_not_mem_of_isTag (hb.prerelease t rfl)) h

end Version

/-- Versions that are read and have the same components are compared by the rules of semantic
versioning, if no number beyond the words stands in the one tag where the other has a text or a
number with more or fewer digits that is beyond the words, too. -/
theorem precedence_eq_semanticTags {text other : String} {a b : Version}
    (ha : Version.parse text = .ok a) (hb : Version.parse other = .ok b)
    (hmajor : a.major = b.major) (hminor : a.minor = b.minor) (hpatch : a.patch = b.patch)
    (hmatched : ∀ p ∈ a.identifiers.zip b.identifiers, p.1.Matched p.2) :
    a.precedence b = Version.semanticTags a.prerelease b.prerelease := by
  have hcomponents : a.precedence b = Version.orderTags a.prerelease b.prerelease := by
    simp only [Version.precedence_eq_stepwise, Version.stepwise, hmajor, hminor, hpatch,
      Std.ReflOrd.compare_self, Ordering.eq_then]
  rw [hcomponents]
  exact Version.orderTags_eq_semanticTags (Version.wellFormed_of_parse ha)
    (Version.wellFormed_of_parse hb) hmatched

/-- A prerelease with the time of its build to the nanosecond. -/
def Version.nightly (time : String) : Version := ⟨1, 4, 0, some ("rc.7." ++ time), none⟩

/-- Times beyond the words that have the same number of digits are matched, so the earlier build
stands below the later one. -/
theorem precedence_eq_semanticTags_nightly :
    Version.parse "v1.4-rc.7.20250131235959000000001" =
        .ok (Version.nightly "20250131235959000000001") ∧
      Version.parse "1.4.0-rc.7.20250201000000000000000" =
        .ok (Version.nightly "20250201000000000000000") ∧
      (∀ p ∈ (Version.nightly "20250131235959000000001").identifiers.zip
        (Version.nightly "20250201000000000000000").identifiers, p.1.Matched p.2) ∧
      (Version.nightly "20250131235959000000001").precedence
        (Version.nightly "20250201000000000000000") = .lt := by
  have hearlier : Version.parse "v1.4-rc.7.20250131235959000000001" =
      .ok (Version.nightly "20250131235959000000001") := rfl
  have hlater : Version.parse "1.4.0-rc.7.20250201000000000000000" =
      .ok (Version.nightly "20250201000000000000000") := rfl
  have hmatched : ∀ p ∈ (Version.nightly "20250131235959000000001").identifiers.zip
      (Version.nightly "20250201000000000000000").identifiers, p.1.Matched p.2 := by
    decide +kernel
  have hrules := precedence_eq_semanticTags hearlier hlater rfl rfl rfl hmatched
  refine ⟨hearlier, hlater, hmatched, hrules.trans ?_⟩
  decide +kernel

/-- Numbers beyond the words are compared by their characters, so the smaller of two may stand
above the other. -/
theorem long_numerals_misordered :
    ¬ ∀ (text other : String) (a b : Version), Version.parse text = .ok a →
      Version.parse other = .ok b → a.major = b.major → a.minor = b.minor → a.patch = b.patch →
        a.precedence b = Version.semanticTags a.prerelease b.prerelease := by
  intro h
  have hnines : Version.parse "1.0.0-99999999999999999999" =
      .ok ⟨1, 0, 0, some "99999999999999999999", none⟩ := rfl
  have hpower : Version.parse "1.0.0-100000000000000000000" =
      .ok ⟨1, 0, 0, some "100000000000000000000", none⟩ := rfl
  have hrules := h _ _ _ _ hnines hpower rfl rfl rfl
  exact absurd hrules (by decide +kernel)

end Depsolve
