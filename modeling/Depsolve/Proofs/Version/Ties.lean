import Depsolve.Proofs.Version.Order
import Depsolve.Proofs.Version.Text

/-!
Versions that the order does not tell apart.

A numeric identifier counts by its value, but a version keeps its spelling, and a text may write
zeros in front of a numeral. So versions may be tied without being equal.

* `unpadded` writes every numeric identifier of a version without such zeros.
* `compare_eq_eq_iff`: two versions are tied just if they are equal when written so.
* `version_ties_iff_unpadded`: of the versions that are read, just those without a padded numeral
  are written so already, and the unpadded version is one that is read. So each tie has one
  version without padded numerals, and between those the order agrees with equality.
* `padded_numerals_tie`: on all versions that are read it does not.
-/

namespace Depsolve

/-! ### Identifiers -/

namespace Identifier

variable {i j : Identifier} {is js : List Identifier}

/-- A numeric identifier as the numeral of its value. -/
def unpadded (i : Identifier) : Identifier :=
  match i.number? with
  | some w => ⟨Text.wordDecimal w⟩
  | none => i

/-- The numeral of a word with a zero in front that does not stand alone. -/
def Padded (i : Identifier) : Prop :=
  ∃ rest, rest ≠ [] ∧ i.chars = '0' :: rest ∧ (Text.word? i.chars).isSome

theorem number?_of_no_sign (h : '+' ∉ i.chars) : i.number? = Text.word? i.chars := by
  rw [number?]
  split
  · rename_i hchars
    exact absurd (hchars ▸ List.mem_cons_self) h
  · rfl

theorem number?_numeral (w : UInt64) : number? ⟨Text.wordDecimal w⟩ = some w := by
  have hsign : '+' ∉ (mk (Text.wordDecimal w)).chars := Text.not_mem_wordDecimal (by decide) w
  rw [number?_of_no_sign hsign, Text.word?_wordDecimal]

theorem unpadded_of_number? {w : UInt64} (h : i.number? = some w) :
    i.unpadded = ⟨Text.wordDecimal w⟩ := by
  rw [unpadded, h]

theorem unpadded_of_textual (h : i.number? = none) : i.unpadded = i := by
  rw [unpadded, h]

@[simp] theorem number?_unpadded (i : Identifier) : i.unpadded.number? = i.number? := by
  cases h : i.number? with
  | none => rw [unpadded_of_textual h, h]
  | some w => rw [unpadded_of_number? h, number?_numeral]

/-- Identifiers are tied just if they are equal without padding. -/
theorem compare_eq_eq_iff : compare i j = .eq ↔ i.unpadded = j.unpadded := by
  -- a number stays one without padding, so it never meets a text
  have hkind : i.number? ≠ j.number? → i.unpadded ≠ j.unpadded := by
    intro hne heq
    rw [← number?_unpadded i, heq, number?_unpadded] at hne
    exact hne rfl
  rw [compare_eq_order, order]
  cases hi : i.number? with
  | none =>
    cases hj : j.number? with
    | none =>
      dsimp only
      rw [unpadded_of_textual hi, unpadded_of_textual hj, Std.compare_eq_iff_eq]
      exact ⟨congrArg mk, congrArg chars⟩
    | some n => simpa using hkind (by simp [hi, hj])
  | some m =>
    cases hj : j.number? with
    | none => simpa using hkind (by simp [hi, hj])
    | some n =>
      dsimp only
      rw [unpadded_of_number? hi, unpadded_of_number? hj, Std.compare_eq_iff_eq, mk.injEq,
        Text.wordDecimal_inj]

theorem compare_list_eq_eq_iff :
    compare is js = .eq ↔ is.map unpadded = js.map unpadded := by
  induction is generalizing js with
  | nil => cases js <;> simp
  | cons i is ih =>
    cases js with
    | nil => simp
    | cons j js =>
      rw [List.compare_cons_cons, Ordering.then_eq_eq, compare_eq_eq_iff, ih, List.map_cons,
        List.map_cons, List.cons.injEq]

/-- Where no sign is read over, just the padded numerals are written otherwise. -/
theorem unpadded_eq_self_iff (h : '+' ∉ i.chars) : i.unpadded = i ↔ ¬ i.Padded := by
  have hnumber := number?_of_no_sign h
  cases hword : Text.word? i.chars with
  | none =>
    rw [hword] at hnumber
    refine iff_of_true (unpadded_of_textual hnumber) ?_
    rintro ⟨rest, -, -, hsome⟩
    rw [hword] at hsome
    cases hsome
  | some w =>
    rw [hword] at hnumber
    have hchars : i.unpadded = i ↔ Text.wordDecimal w = i.chars := by
      rw [unpadded_of_number? hnumber]
      exact ⟨congrArg chars, congrArg mk⟩
    rw [hchars, Text.wordDecimal_eq_iff hword]
    constructor
    · rintro halone ⟨rest, hne, hrest, -⟩
      exact hne (halone rest hrest)
    · intro hpadded rest hrest
      by_contra hne
      exact hpadded ⟨rest, hne, hrest, by rw [hword]; rfl⟩

end Identifier

namespace Version

variable {a b v : Version} {s t : String}

/-- A tag with its numeric identifiers as numerals. -/
def unpadTag (tag : String) : String :=
  String.ofList (List.intercalate ['.'] ((tagIdentifiers tag).map (·.unpadded.chars)))

/-- The version with the numeric identifiers of its prerelease tag as numerals. -/
def unpadded (v : Version) : Version := { v with prerelease := v.prerelease.map unpadTag }

/-! ### Tags by their identifiers -/

theorem tagIdentifiers_ne_nil (tag : String) : tagIdentifiers tag ≠ [] := by
  simpa [tagIdentifiers] using Text.splitOn_ne_nil '.' tag.toList

theorem dot_not_mem_chars {i : Identifier} (h : i ∈ tagIdentifiers t) : '.' ∉ i.chars := by
  obtain ⟨piece, hpiece, rfl⟩ := List.mem_map.mp h
  exact Text.not_mem_of_mem_splitOn hpiece

theorem dot_not_mem_unpadded {i : Identifier} (h : i ∈ tagIdentifiers t) :
    '.' ∉ i.unpadded.chars := by
  cases hnumber : i.number? with
  | none =>
    rw [Identifier.unpadded_of_textual hnumber]
    exact dot_not_mem_chars h
  | some w =>
    rw [Identifier.unpadded_of_number? hnumber]
    exact Text.not_mem_wordDecimal (by decide) w

/-- The identifiers of an unpadded tag are found again. -/
theorem tagIdentifiers_unpadTag (tag : String) :
    tagIdentifiers (unpadTag tag) = (tagIdentifiers tag).map Identifier.unpadded := by
  have hpieces : Text.splitOn '.' (unpadTag tag).toList =
      (tagIdentifiers tag).map (·.unpadded.chars) := by
    rw [unpadTag, String.toList_ofList]
    refine Text.splitOn_intercalate (by simpa using tagIdentifiers_ne_nil tag) fun piece hp => ?_
    obtain ⟨i, hi, rfl⟩ := List.mem_map.mp hp
    exact dot_not_mem_unpadded hi
  rw [tagIdentifiers, hpieces, List.map_map]
  rfl

theorem tagIdentifiers_inj : tagIdentifiers s = tagIdentifiers t ↔ s = t := by
  refine ⟨fun h => String.toList_inj.mp ?_, congrArg _⟩
  have hpieces := congrArg (List.map Identifier.chars) h
  simp only [tagIdentifiers, List.map_map, Function.comp_def, List.map_id'] at hpieces
  rw [← Text.intercalate_splitOn '.' s.toList, hpieces, Text.intercalate_splitOn]

theorem walk_eq_eq_iff :
    Identifier.walk (tagIdentifiers s) (tagIdentifiers t) = .eq ↔ unpadTag s = unpadTag t := by
  rw [← Identifier.compare_eq_walk, Identifier.compare_list_eq_eq_iff, ← tagIdentifiers_unpadTag,
    ← tagIdentifiers_unpadTag, tagIdentifiers_inj]

theorem orderTags_eq_eq_iff {x y : Option String} :
    orderTags x y = .eq ↔ x.map unpadTag = y.map unpadTag := by
  cases x with
  | none => cases y <;> simp [orderTags]
  | some s =>
    cases y with
    | none => simp [orderTags]
    | some t => simpa [orderTags] using walk_eq_eq_iff

/-! ### Ties -/

/-- Versions are tied just if they are equal without padding. -/
theorem compare_eq_eq_iff : compare a b = .eq ↔ a.unpadded = b.unpadded := by
  rw [compare_eq_then, stepwise]
  simp only [Ordering.then_eq_eq, Std.compare_eq_iff_eq, orderTags_eq_eq_iff, unpadded, mk.injEq,
    and_assoc]

theorem isTag_iff_identifiers : isTag t.toList = true ↔
    ∀ i ∈ tagIdentifiers t, i.chars ≠ [] ∧ ∀ c ∈ i.chars, isIdentifierChar c = true := by
  simp [isTag, tagIdentifiers]

/-- No sign stands in a tag. -/
theorem sign_not_mem_of_isTag (h : isTag t.toList = true) :
    ∀ i ∈ tagIdentifiers t, '+' ∉ i.chars := by
  intro i hi hplus
  cases (isTag_iff_identifiers.mp h i hi).2 '+' hplus

theorem unpadTag_eq_self_iff (h : isTag t.toList = true) :
    unpadTag t = t ↔ ∀ i ∈ tagIdentifiers t, ¬ i.Padded := by
  have hself : (tagIdentifiers t).map Identifier.unpadded = tagIdentifiers t ↔
      ∀ i ∈ tagIdentifiers t, i.unpadded = i := by
    simpa using List.map_inj_left (f := Identifier.unpadded) (g := id) (l := tagIdentifiers t)
  rw [← tagIdentifiers_inj, tagIdentifiers_unpadTag, hself]
  exact forall₂_congr fun i hi => Identifier.unpadded_eq_self_iff (sign_not_mem_of_isTag h i hi)

theorem isTag_unpadTag (h : isTag t.toList = true) : isTag (unpadTag t).toList = true := by
  rw [isTag_iff_identifiers, tagIdentifiers_unpadTag]
  intro j hj
  obtain ⟨i, hi, rfl⟩ := List.mem_map.mp hj
  cases hnumber : i.number? with
  | none =>
    rw [Identifier.unpadded_of_textual hnumber]
    exact isTag_iff_identifiers.mp h i hi
  | some w =>
    rw [Identifier.unpadded_of_number? hnumber]
    exact ⟨Text.wordDecimal_ne_nil w, fun c hc =>
      isIdentifierChar_iff.mpr (.inl (Text.isAlphanum_of_mem_wordDecimal hc))⟩

theorem WellFormed.unpadded (h : v.WellFormed) : v.unpadded.WellFormed where
  prerelease tag htag := by
    obtain ⟨t, ht, rfl⟩ := Option.map_eq_some_iff.mp htag
    exact isTag_unpadTag (h.prerelease t ht)
  build := h.build

theorem WellFormed.unpadded_eq_self_iff (h : v.WellFormed) :
    v.unpadded = v ↔ ∀ i ∈ v.identifiers, ¬ i.Padded := by
  obtain ⟨major, minor, patch, prerelease, build⟩ := v
  cases prerelease with
  | none => simp [Version.unpadded, identifiers]
  | some tag =>
    have htag := unpadTag_eq_self_iff (h.prerelease tag rfl)
    simpa [Version.unpadded, identifiers, tagIdentifiers] using htag

end Version

/-- Versions that are read are tied just if they are equal when their numeric identifiers are
written without padding. What is already written so has no padded numeral, and the unpadded
version is one that is read; where no numeral is padded, tied versions are equal. -/
theorem version_ties_iff_unpadded {text other : String} {a b : Version}
    (ha : Version.parse text = .ok a) (hb : Version.parse other = .ok b) :
    (compare a b = .eq ↔ a.unpadded = b.unpadded) ∧
    (a.unpadded = a ↔ ∀ i ∈ a.identifiers, ¬ i.Padded) ∧
    Version.parse a.unpadded.render = .ok a.unpadded ∧
    ((∀ i ∈ a.identifiers ++ b.identifiers, ¬ i.Padded) → (compare a b = .eq ↔ a = b)) := by
  have hfirst := Version.wellFormed_of_parse ha
  have hsecond := Version.wellFormed_of_parse hb
  refine ⟨Version.compare_eq_eq_iff, hfirst.unpadded_eq_self_iff, hfirst.unpadded.parse_render,
    fun hplain => ?_⟩
  have hleft := hfirst.unpadded_eq_self_iff.mpr fun i hi => hplain i (List.mem_append_left _ hi)
  have hright := hsecond.unpadded_eq_self_iff.mpr fun i hi => hplain i (List.mem_append_right _ hi)
  rw [Version.compare_eq_eq_iff, hleft, hright]

namespace Version

/-- A release candidate whose number is padded. -/
def padded : Version := ⟨1, 0, 0, some "rc.01", none⟩

/-- The release candidate of the same number. -/
def plain : Version := ⟨1, 0, 0, some "rc.1", none⟩

theorem parse_padded : parse "1.0.0-rc.01" = .ok padded := rfl

theorem parse_plain : parse "1.0.0-rc.1" = .ok plain := rfl

theorem unpadded_padded : padded.unpadded = plain.unpadded := rfl

theorem parse_release : parse "v1" = .ok (release 1 0 0) := rfl

end Version

/-- The two release candidates are tied, and the padded one is read off its text when it is
written without padding. The plain one and the release have no padded numeral. -/
theorem version_ties_iff_unpadded_candidates :
    Version.parse "1.0.0-rc.01" = .ok Version.padded ∧
      Version.parse "1.0.0-rc.1" = .ok Version.plain ∧
      Version.parse "v1" = .ok (Version.release 1 0 0) ∧
      compare Version.padded Version.plain = .eq ∧
      Version.parse Version.padded.unpadded.render = .ok Version.padded.unpadded ∧
      (∀ i ∈ Version.plain.identifiers ++ (Version.release 1 0 0).identifiers, ¬ i.Padded) ∧
      (compare Version.plain (Version.release 1 0 0) = .eq ↔
        Version.plain = Version.release 1 0 0) := by
  have hcandidates := version_ties_iff_unpadded Version.parse_padded Version.parse_plain
  have hrelease := version_ties_iff_unpadded Version.parse_plain Version.parse_release
  have hplain : ∀ i ∈ Version.plain.identifiers ++ (Version.release 1 0 0).identifiers,
      ¬ i.Padded := by
    have hnone : (Version.release 1 0 0).identifiers = [] := rfl
    rw [hnone, List.append_nil]
    exact hrelease.2.1.mp (by decide +kernel)
  exact ⟨Version.parse_padded, Version.parse_plain, Version.parse_release,
    hcandidates.1.mpr Version.unpadded_padded, hcandidates.2.2.1, hplain, hrelease.2.2.2 hplain⟩

/-- Two versions that are read may be tied without being equal. -/
theorem padded_numerals_tie :
    ¬ ∀ (text other : String) (a b : Version), Version.parse text = .ok a →
      Version.parse other = .ok b → (compare a b = .eq ↔ a = b) := by
  intro h
  have hequal := (h _ _ _ _ Version.parse_padded Version.parse_plain).mp
    (Version.compare_eq_eq_iff.mpr Version.unpadded_padded)
  exact absurd hequal (by decide)

end Depsolve
