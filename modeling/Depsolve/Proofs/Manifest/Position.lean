import Depsolve.Manifest.Text
import Mathlib.Data.List.Induction
import Mathlib.Data.String.Basic

/-!
Line and column tell a place in a text.

* `offsetAt?` goes the way back: it skips lines up to the line wanted, then characters of that
  line, and counts the bytes passed.
* Both ways rest on one split of what stands in front of a place, into `Whole` lines and the
  beginning of the next: `lineColumn_of_front` on the way there, `offsetAt?_eq_some_iff` on the
  way back.
* `positionAfter_lt`: further on in a text either the line is a later one or it is the same line
  and the column is.
* `lineColumn_faithful` states all of this for the places between characters.
-/

namespace Depsolve

/-! ### The way back -/

/-- What follows so many line feeds. -/
def afterLines : Nat → List Char → Option (List Char)
  | 0, cs => some cs
  | _ + 1, [] => none
  | n + 1, c :: cs => if c = '\n' then afterLines n cs else afterLines (n + 1) cs

/-- What follows so many characters of one line. -/
def afterColumns : Nat → List Char → Option (List Char)
  | 0, cs => some cs
  | _ + 1, [] => none
  | n + 1, c :: cs => if c = '\n' then none else afterColumns n cs

/-- The place, in bytes, of a line and a column of a text, both counted from one: just after the
line feed that ends the line before, and from there over one character less than the column says,
none of which may be a line feed. -/
def offsetAt? (text : String) (line column : Nat) : Option Nat := do
  let fromLine ← afterLines (line - 1) text.toList
  let rest ← afterColumns (column - 1) fromLine
  return text.utf8ByteSize - String.utf8Len rest

/-! ### Lines -/

/-- Lines that are all ended by a line feed. -/
def Whole (lines : List Char) : Prop := lines = [] ∨ ∃ front, lines = front ++ ['\n']

variable {n : Nat} {c : Char} {cs lines row rest before front back : List Char}

theorem whole_cons_iff :
    Whole (c :: lines) ↔ lines = [] ∧ c = '\n' ∨ lines ≠ [] ∧ Whole lines := by
  have hnil : '\n' = c ↔ c = '\n' := eq_comm
  cases lines with
  | nil => simp [Whole, List.cons_eq_append_iff, hnil]
  | cons d lines => simp [Whole, List.cons_eq_append_iff]

theorem Whole.eq_nil (h : Whole lines) (hcount : lines.count '\n' = 0) : lines = [] := by
  rcases h with rfl | ⟨front, rfl⟩
  · rfl
  · simp at hcount

/-- What stands in front of a place is whole lines and the beginning of a line. -/
theorem exists_whole_row (before : List Char) :
    ∃ lines row, before = lines ++ row ∧ Whole lines ∧ '\n' ∉ row := by
  induction before using List.reverseRecOn with
  | nil => exact ⟨[], [], rfl, .inl rfl, List.not_mem_nil⟩
  | append_singleton before c ih =>
    by_cases hc : c = '\n'
    · exact ⟨before ++ [c], [], (List.append_nil _).symm, .inr ⟨before, by rw [hc]⟩,
        List.not_mem_nil⟩
    · obtain ⟨lines, row, rfl, hlines, hrow⟩ := ih
      refine ⟨lines, row ++ [c], List.append_assoc .., hlines, ?_⟩
      simpa [hrow] using Ne.symm hc

/-- The lines that are skipped are whole and as many as are wanted. -/
theorem afterLines_eq_some_iff : afterLines n cs = some rest ↔
    ∃ lines, cs = lines ++ rest ∧ Whole lines ∧ lines.count '\n' = n := by
  fun_induction afterLines n cs with
  | case1 cs =>
    constructor
    · rintro ⟨⟩
      exact ⟨[], rfl, .inl rfl, rfl⟩
    · rintro ⟨lines, rfl, hlines, hcount⟩
      rw [hlines.eq_nil hcount, List.nil_append]
  | case2 n => simp
  | case3 n cs ih =>
    rw [ih]
    constructor
    · rintro ⟨lines, rfl, hlines, rfl⟩
      refine ⟨'\n' :: lines, rfl, whole_cons_iff.mpr ?_, List.count_cons_self⟩
      by_cases hempty : lines = []
      · exact .inl ⟨hempty, rfl⟩
      · exact .inr ⟨hempty, hlines⟩
    · rintro ⟨lines, hsplit, hlines, hcount⟩
      cases lines with
      | nil => cases hcount
      | cons d lines =>
        obtain ⟨rfl, rfl⟩ := List.cons.inj hsplit
        rw [List.count_cons_self, Nat.add_left_inj] at hcount
        refine ⟨lines, rfl, ?_, hcount⟩
        rcases whole_cons_iff.mp hlines with ⟨rfl, -⟩ | ⟨-, hlines⟩
        · exact .inl rfl
        · exact hlines
  | case4 n c cs hc ih =>
    rw [ih]
    constructor
    · rintro ⟨lines, rfl, hlines, hcount⟩
      have hne : lines ≠ [] := by
        rintro rfl
        cases hcount
      exact ⟨c :: lines, rfl, whole_cons_iff.mpr (.inr ⟨hne, hlines⟩), by
        rw [List.count_cons_of_ne hc, hcount]⟩
    · rintro ⟨lines, hsplit, hlines, hcount⟩
      cases lines with
      | nil => cases hcount
      | cons d lines =>
        obtain ⟨rfl, rfl⟩ := List.cons.inj hsplit
        rw [List.count_cons_of_ne hc] at hcount
        rcases whole_cons_iff.mp hlines with ⟨-, hfeed⟩ | ⟨-, hlines⟩
        · exact absurd hfeed hc
        · exact ⟨lines, rfl, hlines, hcount⟩

/-- The characters that are skipped are of one line and as many as are wanted. -/
theorem afterColumns_eq_some_iff : afterColumns n cs = some rest ↔
    ∃ row, cs = row ++ rest ∧ '\n' ∉ row ∧ row.length = n := by
  fun_induction afterColumns n cs with
  | case1 cs =>
    constructor
    · rintro ⟨⟩
      exact ⟨[], rfl, List.not_mem_nil, rfl⟩
    · rintro ⟨row, rfl, -, hlength⟩
      rw [List.length_eq_zero_iff.mp hlength, List.nil_append]
  | case2 n => simp
  | case3 n cs =>
    constructor
    · rintro ⟨⟩
    · rintro ⟨row, hsplit, hrow, hlength⟩
      cases row with
      | nil => cases hlength
      | cons d row =>
        obtain ⟨rfl, -⟩ := List.cons.inj hsplit
        exact absurd List.mem_cons_self hrow
  | case4 n c cs hc ih =>
    rw [ih]
    constructor
    · rintro ⟨row, rfl, hrow, rfl⟩
      exact ⟨c :: row, rfl, List.not_mem_cons_of_ne_of_not_mem (Ne.symm hc) hrow, rfl⟩
    · rintro ⟨row, hsplit, hrow, hlength⟩
      cases row with
      | nil => cases hlength
      | cons d row =>
        obtain ⟨rfl, rfl⟩ := List.cons.inj hsplit
        exact ⟨row, rfl, fun hmem => hrow (List.mem_cons_of_mem _ hmem), Nat.succ.inj hlength⟩

/-- A line and a column lead to the place behind as many whole lines and characters. -/
theorem offsetAt?_eq_some_iff {text : String} {line column offset : Nat} :
    offsetAt? text line column = some offset ↔ ∃ lines row rest,
      text.toList = (lines ++ row) ++ rest ∧ Whole lines ∧ '\n' ∉ row ∧
      lines.count '\n' = line - 1 ∧ row.length = column - 1 ∧
      String.utf8Len (lines ++ row) = offset := by
  have hsize {cs rest : List Char} (h : text.toList = cs ++ rest) :
      text.utf8ByteSize - String.utf8Len rest = String.utf8Len cs := by
    rw [← String.ofList_toList (s := text), String.utf8ByteSize_ofList, h, String.utf8Len_append]
    omega
  simp only [offsetAt?, bind, Option.bind_eq_some_iff, afterLines_eq_some_iff,
    afterColumns_eq_some_iff, pure, Option.some.injEq]
  constructor
  · rintro ⟨_, ⟨lines, htext, hlines, hline⟩, rest, ⟨row, rfl, hrow, hcolumn⟩, rfl⟩
    rw [← List.append_assoc] at htext
    exact ⟨lines, row, rest, htext, hlines, hrow, hline, hcolumn, (hsize htext).symm⟩
  · rintro ⟨lines, row, rest, htext, hlines, hrow, hline, hcolumn, rfl⟩
    refine ⟨row ++ rest, ⟨lines, ?_, hlines, hline⟩, rest, ⟨row, rfl, hrow, hcolumn⟩,
      hsize htext⟩
    rw [htext, List.append_assoc]

/-! ### The way there -/

/-- The line and the column of the place behind some characters. -/
def positionAfter (before : List Char) : Nat × Nat :=
  (before.count '\n' + 1, (before.reverse.takeWhile (· ≠ '\n')).length + 1)

/-- Behind whole lines and the beginning of a line, the lines and the characters of that line
count. -/
theorem positionAfter_append (hlines : Whole lines) (hrow : '\n' ∉ row) :
    positionAfter (lines ++ row) = (lines.count '\n' + 1, row.length + 1) := by
  have hfull : ∀ c ∈ row.reverse, decide (c ≠ '\n') = true := by
    intro c hc
    exact decide_eq_true fun heq => hrow (heq ▸ List.mem_reverse.mp hc)
  have hnone : lines.reverse.takeWhile (· ≠ '\n') = [] := by
    rcases hlines with rfl | ⟨front, rfl⟩
    · rfl
    · simp
  rw [positionAfter, List.count_append, List.count_eq_zero_of_not_mem hrow, List.reverse_append,
    List.takeWhile_append_of_pos hfull, hnone, List.append_nil, List.length_reverse, Nat.add_zero]

/-- Further on the line is a later one, or the line is the same and the column is a later one. -/
theorem positionAfter_lt (hrest : rest ≠ []) :
    Prod.Lex (· < ·) (· < ·) (positionAfter before) (positionAfter (before ++ rest)) := by
  by_cases hfeed : '\n' ∈ rest
  · refine Prod.Lex.left _ _ ?_
    have hpos : 0 < rest.count '\n' := List.count_pos_iff.mpr hfeed
    rw [List.count_append]
    omega
  · obtain ⟨lines, row, rfl, hlines, hrow⟩ := exists_whole_row before
    have hboth : '\n' ∉ row ++ rest := by simp [hrow, hfeed]
    rw [List.append_assoc, positionAfter_append hlines hrow, positionAfter_append hlines hboth]
    refine Prod.Lex.right _ ?_
    have hpos : 0 < rest.length := List.length_pos_iff.mpr hrest
    rw [List.length_append]
    omega

theorem charsBefore?_append (front back : List Char) :
    charsBefore? (String.utf8Len front) (front ++ back) = some front := by
  induction front with
  | nil => cases back <;> rfl
  | cons c front ih =>
    have hpos : 0 < c.utf8Size := c.utf8Size_pos
    obtain ⟨offset, hoffset⟩ : ∃ offset, String.utf8Len (c :: front) = offset + 1 :=
      Nat.exists_eq_succ_of_ne_zero (by rw [String.utf8Len_cons]; omega)
    have hle : c.utf8Size ≤ offset + 1 := by
      rw [← hoffset, String.utf8Len_cons]
      omega
    have hrest : offset + 1 - c.utf8Size = String.utf8Len front := by
      rw [← hoffset, String.utf8Len_cons]
      omega
    rw [hoffset, List.cons_append, charsBefore?, if_pos hle, hrest, ih]
    rfl

/-- The position of a place is that behind the characters in front of it. -/
theorem lineColumn_of_front {text : String} (htext : text.toList = front ++ back) :
    lineColumn text (String.utf8Len front) = positionAfter front := by
  rw [lineColumn, htext, charsBefore?_append]
  rfl

/-! ### Places between characters -/

variable {text : String}

/-- A place between characters is behind some of them. -/
theorem exists_front (p : text.Pos) :
    ∃ front back, text.toList = front ++ back ∧ p.offset.byteIdx = String.utf8Len front := by
  obtain ⟨front, back, rfl, hoffset⟩ := String.Pos.Raw.isValid_iff_exists_append.mp p.isValid
  refine ⟨front.toList, back.toList, String.toList_append, ?_⟩
  rw [hoffset, String.byteIdx_rawEndPos, ← String.utf8ByteSize_ofList, String.ofList_toList]

/-- What stands in front of the earlier of two places is the beginning of what stands in front of
the later one. -/
theorem exists_between {front back front' back' : List Char}
    (hsplit : front ++ back = front' ++ back')
    (hlt : String.utf8Len front < String.utf8Len front') :
    ∃ between, between ≠ [] ∧ front' = front ++ between := by
  rcases List.append_eq_append_iff.mp hsplit with ⟨between, rfl, -⟩ | ⟨between, rfl, -⟩
  · refine ⟨between, ?_, rfl⟩
    rintro rfl
    simp at hlt
  · rw [String.utf8Len_append] at hlt
    omega

/-- Positions are faithful. For every place of a text at which a character begins or the text
ends, the line and the column are the ones, both from one on, that lead back to the place: past
the line feed in front of the line and over the characters of the line in front of the column. For
two such places the earlier one has the smaller position, by the line first and then by the
column. -/
theorem lineColumn_faithful (text : String) (p : text.Pos) :
    (∀ line column, lineColumn text p.offset.byteIdx = (line, column) ↔
      1 ≤ line ∧ 1 ≤ column ∧ offsetAt? text line column = some p.offset.byteIdx) ∧
    ∀ q : text.Pos, p < q → Prod.Lex (· < ·) (· < ·) (lineColumn text p.offset.byteIdx)
      (lineColumn text q.offset.byteIdx) := by
  obtain ⟨front, back, htext, hoffset⟩ := exists_front p
  constructor
  · intro line column
    constructor
    · intro hposition
      obtain ⟨lines, row, rfl, hlines, hrow⟩ := exists_whole_row front
      rw [hoffset, lineColumn_of_front htext, positionAfter_append hlines hrow] at hposition
      cases hposition
      exact ⟨Nat.le_add_left .., Nat.le_add_left .., offsetAt?_eq_some_iff.mpr
        ⟨lines, row, back, htext, hlines, hrow, rfl, rfl, hoffset.symm⟩⟩
    · rintro ⟨hline, hcolumn, hback⟩
      obtain ⟨lines, row, rest, hsplit, hlines, hrow, hfeeds, hlength, hsize⟩ :=
        offsetAt?_eq_some_iff.mp hback
      rw [← hsize, lineColumn_of_front hsplit, positionAfter_append hlines hrow, hfeeds, hlength,
        Nat.sub_add_cancel hline, Nat.sub_add_cancel hcolumn]
  · intro q hlt
    obtain ⟨front', back', htext', hoffset'⟩ := exists_front q
    have hsizes : String.utf8Len front < String.utf8Len front' := by
      rw [← hoffset, ← hoffset']
      exact hlt
    obtain ⟨between, hbetween, rfl⟩ := exists_between (htext.symm.trans htext') hsizes
    rw [hoffset, hoffset', lineColumn_of_front htext, lineColumn_of_front htext']
    exact positionAfter_lt hbetween

example : lineColumn "ä\nbc" 4 = (2, 2) := by decide

end Depsolve
