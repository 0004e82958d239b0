import Depsolve.Text.Blank
import Depsolve.Text.Digits
import Depsolve.Text.Split
import Mathlib.Data.List.Induction
import Mathlib.Data.List.TakeWhile

/-!
Texts that were put together and are taken apart again: pieces with separators between them,
texts without white space, and the numerals of words.

A word is read off its numeral (`word?_wordDecimal`). Only a zero in front can be more than the
numeral has (`wordDecimal_eq_iff`). Rows of digits stand in the order of their values if they are
of one length (`compare_digitsValue`), and may not if they are not.
-/

namespace Depsolve.Text

variable {sep : Char} {cs piece rest before after : List Char} {pieces : List (List Char)}

/-! ### Pieces -/

theorem splitOn_of_not_mem (h : sep ∉ cs) : splitOn sep cs = [cs] := by
  induction cs with
  | nil => rfl
  | cons c cs ih =>
    obtain ⟨hc, hcs⟩ := not_or.mp (mt List.mem_cons.mpr h)
    rw [splitOn, if_neg (Ne.symm hc), ih hcs]

/-- A piece ends at the first separator. -/
theorem splitOn_append (h : sep ∉ piece) (rest : List Char) :
    splitOn sep (piece ++ sep :: rest) = piece :: splitOn sep rest := by
  induction piece with
  | nil => rw [List.nil_append, splitOn, if_pos rfl]
  | cons c cs ih =>
    obtain ⟨hc, hcs⟩ := not_or.mp (mt List.mem_cons.mpr h)
    rw [List.cons_append, splitOn, if_neg (Ne.symm hc), ih hcs]

theorem splitOn_intercalate (hne : pieces ≠ []) (h : ∀ piece ∈ pieces, sep ∉ piece) :
    splitOn sep (List.intercalate [sep] pieces) = pieces := by
  induction pieces with
  | nil => contradiction
  | cons piece pieces ih =>
    have hpiece := h piece List.mem_cons_self
    cases pieces with
    | nil => simpa [List.intercalate] using splitOn_of_not_mem hpiece
    | cons next others =>
      have hrest := ih (List.cons_ne_nil _ _) fun p hp => h p (List.mem_cons_of_mem _ hp)
      rw [List.intercalate_cons_cons, List.append_assoc, List.singleton_append,
        splitOn_append hpiece, hrest]

/-- A character of joined pieces is the separator or stands in one of them. -/
theorem mem_intercalate_cases {c : Char} (h : c ∈ List.intercalate [sep] pieces) :
    c = sep ∨ ∃ piece ∈ pieces, c ∈ piece := by
  induction pieces with
  | nil => cases h
  | cons piece pieces ih =>
    cases pieces with
    | nil => exact .inr ⟨piece, List.mem_cons_self, by simpa [List.intercalate] using h⟩
    | cons next others =>
      rw [List.intercalate_cons_cons, List.append_assoc, List.mem_append] at h
      rcases h with h | h
      · exact .inr ⟨piece, List.mem_cons_self, h⟩
      · rcases List.mem_cons.mp h with h | h
        · exact .inl h
        · exact (ih h).imp_right fun ⟨p, hp, hc⟩ => ⟨p, List.mem_cons_of_mem _ hp, hc⟩

/-- No piece has the separator in it. -/
theorem not_mem_of_mem_splitOn (h : piece ∈ splitOn sep cs) : sep ∉ piece := by
  induction cs generalizing piece with
  | nil =>
    rw [List.mem_singleton.mp h]
    exact List.not_mem_nil
  | cons c cs ih =>
    rw [splitOn] at h
    split at h
    · rcases List.mem_cons.mp h with rfl | h
      · exact List.not_mem_nil
      · exact ih h
    · rename_i hc
      split at h
      · rename_i hnil
        exact absurd hnil (splitOn_ne_nil sep cs)
      · rename_i front others hpieces
        rw [hpieces] at ih
        rcases List.mem_cons.mp h with rfl | h
        · rw [List.mem_cons, not_or]
          exact ⟨Ne.symm hc, ih List.mem_cons_self⟩
        · exact ih (List.mem_cons_of_mem _ h)

theorem mem_splitOn_cases {c : Char} (h : c ∈ cs) :
    c = sep ∨ ∃ piece ∈ splitOn sep cs, c ∈ piece :=
  mem_intercalate_cases ((intercalate_splitOn sep cs).symm ▸ h)

/-- Where the text in front has no separator, the cut is behind it. -/
theorem cutAt_append (h : sep ∉ before) (after : List Char) :
    cutAt sep (before ++ sep :: after) = some (before, after) := by
  induction before with
  | nil => rw [List.nil_append, cutAt, if_pos rfl]
  | cons c cs ih =>
    obtain ⟨hc, hcs⟩ := not_or.mp (mt List.mem_cons.mpr h)
    rw [List.cons_append, cutAt, if_neg (Ne.symm hc), ih hcs]
    rfl

/-- A cut is at the first separator. -/
theorem cutAt_eq_some :
    cutAt sep cs = some (before, after) ↔ cs = before ++ sep :: after ∧ sep ∉ before := by
  constructor
  · intro h
    refine ⟨append_of_cutAt h, ?_⟩
    induction cs generalizing before with
    | nil => cases h
    | cons c cs ih =>
      rw [cutAt] at h
      split at h
      · cases h
        exact List.not_mem_nil
      · rename_i hc
        obtain ⟨cut, hcut, heq⟩ := Option.map_eq_some_iff.mp h
        cases heq
        simp [Ne.symm hc, ih hcut]
  · rintro ⟨rfl, h⟩
    exact cutAt_append h after

theorem cutAt_eq_none : cutAt sep cs = none ↔ sep ∉ cs := by
  induction cs with
  | nil => simp [cutAt]
  | cons c cs ih =>
    rw [cutAt]
    by_cases hc : c = sep
    · simp [hc]
    · simp [hc, Ne.symm hc, ih]

/-! ### White space -/

theorem dropWhile_of_all_false {p : Char → Bool} (h : ∀ c ∈ cs, p c = false) :
    cs.dropWhile p = cs := by
  cases cs with
  | nil => rfl
  | cons c cs => rw [List.dropWhile_cons, h c List.mem_cons_self, if_neg Bool.false_ne_true]

/-- A visible ASCII character. -/
def isVisible (c : Char) : Bool := decide (0x20 < c.toNat) && decide (c.toNat < 0x7f)

theorem isBlank_of_isVisible {c : Char} (h : isVisible c = true) : isBlank c = false := by
  have hbound : ∀ n < 0x7f, 0x20 < n → blankRanges.contains n = false := by decide
  simp only [isVisible, Bool.and_eq_true, decide_eq_true_eq] at h
  exact hbound _ h.2 h.1

theorem isVisible_of_isAlphanum {c : Char} (h : c.isAlphanum = true) : isVisible c = true := by
  have hranges : ((decide (c.val ≥ 'A'.val ∧ c.val ≤ 'Z'.val) ||
      (decide (c.val ≥ 'a'.val) && decide (c.val ≤ 'z'.val))) ||
      (decide (c.val ≥ '0'.val) && decide (c.val ≤ '9'.val))) = true := h
  simp only [Bool.or_eq_true, Bool.and_eq_true, decide_eq_true_eq, ge_iff_le,
    UInt32.le_iff_toNat_le, Char.toNat_val, Char.reduceToNat] at hranges
  simp only [isVisible, Bool.and_eq_true, decide_eq_true_eq]
  omega

theorem trimChars_of_not_blank (h : ∀ c ∈ cs, isBlank c = false) : trimChars cs = cs := by
  have hreverse : ∀ c ∈ cs.reverse, isBlank c = false := fun c hc => h c (List.mem_reverse.mp hc)
  rw [trimChars, dropWhile_of_all_false h, dropWhile_of_all_false hreverse, List.reverse_reverse]

theorem trimChars_of_all_isVisible (h : cs.all isVisible = true) : trimChars cs = cs :=
  trimChars_of_not_blank fun c hc => isBlank_of_isVisible (List.all_eq_true.mp h c hc)

/-- Blanks at both ends do not count. -/
theorem trimChars_append {front back : List Char} (hfront : ∀ c ∈ front, isBlank c = true)
    (hback : ∀ c ∈ back, isBlank c = true) (cs : List Char) :
    trimChars (front ++ cs ++ back) = trimChars cs := by
  have hend (ds : List Char) : (ds ++ back).reverse.dropWhile isBlank =
      ds.reverse.dropWhile isBlank := by
    rw [List.reverse_append]
    exact List.dropWhile_append_of_pos fun c hc => hback c (List.mem_reverse.mp hc)
  rw [trimChars, trimChars, List.append_assoc, List.dropWhile_append_of_pos hfront,
    List.dropWhile_append]
  split
  · rename_i hempty
    have hblank : back.dropWhile isBlank = [] := List.dropWhile_eq_nil_iff.mpr hback
    rw [hblank, List.isEmpty_iff.mp hempty]
  · rw [hend]

/-- What is left of a text stands between blanks. -/
theorem exists_eq_append_trimChars (cs : List Char) : ∃ front back,
    cs = front ++ trimChars cs ++ back ∧ (∀ c ∈ front, isBlank c = true) ∧
      ∀ c ∈ back, isBlank c = true := by
  have hcut (ds : List Char) : ∃ blanks, ds = blanks ++ ds.dropWhile isBlank ∧
      ∀ c ∈ blanks, isBlank c = true :=
    ⟨ds.takeWhile isBlank, List.takeWhile_append_dropWhile.symm, fun _ => List.mem_takeWhile_imp⟩
  obtain ⟨front, hfront, hfrontBlank⟩ := hcut cs
  obtain ⟨back, hback, hbackBlank⟩ := hcut (cs.dropWhile isBlank).reverse
  refine ⟨front, back.reverse, ?_, hfrontBlank, fun c hc => hbackBlank c (List.mem_reverse.mp hc)⟩
  rw [trimChars, List.append_assoc, ← List.reverse_append, ← hback, List.reverse_reverse, ← hfront]

/-- In a text that is trimmed already, a rear part has blanks only in front. -/
theorem exists_blanks_of_trimChars_eq {front rear : List Char}
    (h : trimChars (front ++ rear) = front ++ rear) :
    ∃ blanks, rear = blanks ++ trimChars rear ∧ ∀ c ∈ blanks, isBlank c = true := by
  obtain ⟨blanks, back, hrear, hblanks, hback⟩ := exists_eq_append_trimChars rear
  refine ⟨blanks, ?_, hblanks⟩
  have hsame : trimChars (front ++ rear) = trimChars (front ++ (blanks ++ trimChars rear)) := by
    conv_lhs => rw [hrear, ← List.append_assoc]
    exact trimChars_append (List.forall_mem_nil _) hback _
  obtain ⟨_, _, hkept, -⟩ := exists_eq_append_trimChars (front ++ (blanks ++ trimChars rear))
  have hlength := congrArg List.length hkept
  have hlengthRear := congrArg List.length hrear
  rw [← hsame, h] at hlength
  simp only [List.length_append] at hlength hlengthRear
  have hnil : back = [] := List.eq_nil_of_length_eq_zero (by omega)
  rw [hnil, List.append_nil] at hrear
  exact hrear

/-! ### Numerals -/

theorem isDigit_of_mem_toDigits {c : Char} {n : Nat} (h : c ∈ Nat.toDigits 10 n) :
    c.isDigit = true :=
  Nat.isDigit_of_mem_toDigits (by decide) (by decide) h

theorem exists_toDigits_eq_cons (n : Nat) :
    ∃ c cs, Nat.toDigits 10 n = c :: cs ∧ c.isDigit = true := by
  obtain ⟨c, cs, hcs⟩ := List.exists_cons_of_ne_nil (Nat.toDigits_ne_nil (n := n) (b := 10))
  exact ⟨c, cs, hcs, isDigit_of_mem_toDigits (hcs ▸ List.mem_cons_self)⟩

/-- Only zero is written with a zero in front. -/
theorem eq_zero_of_head?_toDigits {n : Nat} (h : (Nat.toDigits 10 n).head? = some '0') :
    n = 0 := by
  induction n using Nat.strongRecOn with
  | ind n ih =>
    rw [Nat.toDigits_eq_if (by decide)] at h
    split at h
    · simpa using h
    · have hfront : (Nat.toDigits 10 (n / 10)).head? = some '0' := by
        obtain ⟨c, cs, hcs, -⟩ := exists_toDigits_eq_cons (n / 10)
        rw [hcs] at h ⊢
        exact h
      have hzero := ih (n / 10) (by omega) hfront
      omega

theorem digitsValue_toDigits (n : Nat) : digitsValue (Nat.toDigits 10 n) = n :=
  Nat.ofDigitChars_eq_foldl.symm.trans Nat.ofDigitChars_ten_toDigits

theorem digitsValue_concat (cs : List Char) (c : Char) :
    digitsValue (cs ++ [c]) = 10 * digitsValue cs + (c.toNat - '0'.toNat) := by
  rw [digitsValue, List.foldl_append]
  rfl

theorem isDigit_iff {c : Char} : c.isDigit = true ↔ '0'.toNat ≤ c.toNat ∧ c.toNat ≤ '9'.toNat := by
  simp [Char.isDigit, UInt32.le_iff_toNat_le]

/-- A digit is the numeral of its own value. -/
theorem toDigits_digit {c : Char} (h : c.isDigit = true) :
    c.toNat - '0'.toNat < 10 ∧ Nat.toDigits 10 (c.toNat - '0'.toNat) = [c] := by
  have hrange := isDigit_iff.mp h
  simp only [Char.reduceToNat] at hrange ⊢
  have hlt : c.toNat - 48 < 10 := by omega
  have hdigit : Nat.digitChar (c.toNat - 48) = c := by
    refine Char.toNat_inj.mp ?_
    rw [Nat.toNat_digitChar_of_lt_ten hlt]
    omega
  rw [Nat.toDigits_of_lt_base hlt, hdigit]
  exact ⟨hlt, rfl⟩

/-- A row of digits without a zero in front is the numeral of its value. -/
theorem toDigits_digitsValue (hne : cs ≠ []) (hdigits : ∀ c ∈ cs, c.isDigit = true)
    (hzero : cs.head? ≠ some '0') :
    0 < digitsValue cs ∧ Nat.toDigits 10 (digitsValue cs) = cs := by
  induction cs using List.reverseRecOn with
  | nil => contradiction
  | append_singleton cs c ih =>
    obtain ⟨hlt, hdigit⟩ := toDigits_digit (hdigits c (by simp))
    rw [digitsValue_concat]
    cases cs with
    | nil =>
      have hpos : 0 < c.toNat - '0'.toNat := by
        refine Nat.pos_of_ne_zero fun h => hzero ?_
        rw [h] at hdigit
        rw [List.nil_append, ← hdigit]
        rfl
      have hvalue : 10 * digitsValue [] + (c.toNat - '0'.toNat) = c.toNat - '0'.toNat :=
        Nat.zero_add _
      rw [hvalue]
      exact ⟨hpos, hdigit⟩
    | cons d ds =>
      obtain ⟨hpos, hfront⟩ := ih (List.cons_ne_nil _ _)
        (fun e he => hdigits e (List.mem_append_left _ he)) hzero
      refine ⟨by omega, ?_⟩
      rw [← Nat.toDigits_append_toDigits (by decide) hpos hlt, hfront, hdigit]

/-! ### The order of numerals -/

theorem compare_char (c d : Char) : compare c d = compare c.toNat d.toNat := by
  have hlt : c < d ↔ c.toNat < d.toNat := Iff.rfl
  have heq : c = d ↔ c.toNat = d.toNat := Char.toNat_inj.symm
  change compareOfLessAndEq c d = compareOfLessAndEq c.toNat d.toNat
  simp only [compareOfLessAndEq, hlt, heq]

/-- Of two numbers with one more digit each the new digits decide last. -/
theorem compare_shift {m n x y : Nat} (hx : x < 10) (hy : y < 10) :
    compare (10 * m + x) (10 * n + y) = (compare m n).then (compare x y) := by
  rcases Nat.lt_trichotomy m n with hlt | rfl | hgt
  · rw [Nat.compare_eq_lt.mpr hlt, Nat.compare_eq_lt.mpr (by omega), Ordering.lt_then]
  · simp only [Std.ReflOrd.compare_self, Ordering.eq_then, Nat.compare_eq_ite_lt,
      Nat.add_lt_add_iff_left]
  · rw [Nat.compare_eq_gt.mpr hgt, Nat.compare_eq_gt.mpr (by omega), Ordering.gt_then]

/-- Digits stand in the order of their values. -/
theorem compare_digit {c d : Char} (hc : c.isDigit = true) (hd : d.isDigit = true) :
    compare (c.toNat - '0'.toNat) (d.toNat - '0'.toNat) = compare c d := by
  obtain ⟨hc, -⟩ := isDigit_iff.mp hc
  obtain ⟨hd, -⟩ := isDigit_iff.mp hd
  have hlt : c.toNat - '0'.toNat < d.toNat - '0'.toNat ↔ c.toNat < d.toNat := by omega
  have hgt : d.toNat - '0'.toNat < c.toNat - '0'.toNat ↔ d.toNat < c.toNat := by omega
  simp only [compare_char, Nat.compare_eq_ite_lt, hlt, hgt]

/-- Rows of digits of one length, each behind a number: the numbers decide first. -/
theorem compare_foldl_digits {cs ds : List Char} (hcs : ∀ c ∈ cs, c.isDigit = true)
    (hds : ∀ d ∈ ds, d.isDigit = true) (hlength : cs.length = ds.length) (m n : Nat) :
    compare (cs.foldl (fun n c => 10 * n + (c.toNat - '0'.toNat)) m)
        (ds.foldl (fun n c => 10 * n + (c.toNat - '0'.toNat)) n) =
      (compare m n).then (compare cs ds) := by
  induction cs generalizing ds m n with
  | nil =>
    obtain rfl := List.length_eq_zero_iff.mp hlength.symm
    rw [Std.ReflOrd.compare_self, Ordering.then_eq]
    rfl
  | cons c cs ih =>
    cases ds with
    | nil => cases hlength
    | cons d ds =>
      obtain ⟨hc, hcs⟩ := List.forall_mem_cons.mp hcs
      obtain ⟨hd, hds⟩ := List.forall_mem_cons.mp hds
      rw [List.foldl_cons, List.foldl_cons, ih hcs hds (Nat.succ.inj hlength),
        compare_shift (toDigits_digit hc).1 (toDigits_digit hd).1, compare_digit hc hd,
        Ordering.then_assoc, List.compare_cons_cons]

/-- Rows of digits of one length stand in the order of their values. -/
theorem compare_digitsValue {cs ds : List Char} (hcs : ∀ c ∈ cs, c.isDigit = true)
    (hds : ∀ d ∈ ds, d.isDigit = true) (hlength : cs.length = ds.length) :
    compare (digitsValue cs) (digitsValue ds) = compare cs ds := by
  rw [digitsValue, digitsValue, compare_foldl_digits hcs hds hlength, Std.ReflOrd.compare_self,
    Ordering.eq_then]

/-! ### Numerals of words -/

theorem isDigit_of_mem_wordDecimal {c : Char} {w : UInt64} (h : c ∈ wordDecimal w) :
    c.isDigit = true :=
  isDigit_of_mem_toDigits h

theorem not_mem_wordDecimal {c : Char} (h : c.isDigit = false) (w : UInt64) :
    c ∉ wordDecimal w := fun hc => by
  rw [isDigit_of_mem_wordDecimal hc] at h
  cases h

theorem isAlphanum_of_mem_wordDecimal {c : Char} {w : UInt64} (h : c ∈ wordDecimal w) :
    c.isAlphanum = true := by
  rw [Char.isAlphanum, isDigit_of_mem_wordDecimal h, Bool.or_true]

theorem all_isVisible_wordDecimal (w : UInt64) : (wordDecimal w).all isVisible = true :=
  List.all_eq_true.mpr fun _ hc => isVisible_of_isAlphanum (isAlphanum_of_mem_wordDecimal hc)

theorem wordDecimal_ne_nil (w : UInt64) : wordDecimal w ≠ [] := Nat.toDigits_ne_nil

theorem exists_wordDecimal_eq_cons (w : UInt64) :
    ∃ c cs, wordDecimal w = c :: cs ∧ c.isDigit = true :=
  exists_toDigits_eq_cons w.toNat

/-- Only a row of digits whose value fits denotes a word. -/
theorem word?_eq_some {w : UInt64} :
    word? cs = some w ↔ cs ≠ [] ∧ (∀ c ∈ cs, c.isDigit = true) ∧ digitsValue cs = w.toNat := by
  rw [word?]
  constructor
  · intro h
    split at h
    · rename_i hword
      cases h
      simp only [Bool.and_eq_true, Bool.not_eq_true', List.isEmpty_eq_false_iff,
        List.all_eq_true, decide_eq_true_eq] at hword
      obtain ⟨⟨hne, hdigits⟩, hlt⟩ := hword
      exact ⟨hne, hdigits, (UInt64.toNat_ofNat_of_lt hlt).symm⟩
    · cases h
  · rintro ⟨hne, hdigits, hvalue⟩
    have hlt : digitsValue cs < UInt64.size := hvalue ▸ w.toNat_lt
    rw [if_pos (by simpa [hne, hlt] using hdigits), hvalue, UInt64.ofNat_toNat]

/-- A word is read off its numeral. -/
theorem word?_wordDecimal (w : UInt64) : word? (wordDecimal w) = some w :=
  word?_eq_some.mpr ⟨wordDecimal_ne_nil w, fun _ => isDigit_of_mem_wordDecimal,
    digitsValue_toDigits w.toNat⟩

theorem wordDecimal_inj {v w : UInt64} : wordDecimal v = wordDecimal w ↔ v = w := by
  refine ⟨fun h => ?_, congrArg wordDecimal⟩
  have hread := word?_wordDecimal v
  rw [h, word?_wordDecimal] at hread
  exact (Option.some.inj hread).symm

/-- What denotes a word is its numeral just if a zero in front stands alone. -/
theorem wordDecimal_eq_iff {w : UInt64} (h : word? cs = some w) :
    wordDecimal w = cs ↔ ∀ rest, cs = '0' :: rest → rest = [] := by
  obtain ⟨hne, hdigits, hvalue⟩ := word?_eq_some.mp h
  constructor
  · rintro hcs rest rfl
    have hzero : w.toNat = 0 := eq_zero_of_head?_toDigits (by
      rw [show Nat.toDigits 10 w.toNat = '0' :: rest from hcs]
      rfl)
    rw [wordDecimal, decimal, hzero] at hcs
    exact (List.cons.inj hcs).2.symm
  · intro halone
    rw [wordDecimal, decimal, ← hvalue]
    by_cases hhead : cs.head? = some '0'
    · obtain ⟨rest, rfl⟩ := List.head?_eq_some_iff.mp hhead
      rw [halone rest rfl]
      rfl
    · exact (toDigits_digitsValue hne hdigits hhead).2

end Depsolve.Text
