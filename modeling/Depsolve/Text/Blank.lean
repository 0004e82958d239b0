import Depsolve.Text.Ranges

/-!
White space, and the text that is left when the white space at both ends is removed.
The white space characters are the ones with the Unicode property `White_Space`.

`trim_trim` says that trimming once is enough.
-/

namespace Depsolve.Text

/-- The white space code points. -/
def blankRanges : Ranges :=
  [(0x9, 0xd), (0x20, 0x20), (0x85, 0x85), (0xa0, 0xa0), (0x1680, 0x1680), (0x2000, 0x200a),
   (0x2028, 0x2029), (0x202f, 0x202f), (0x205f, 0x205f), (0x3000, 0x3000)]

/-- A white space character. -/
def isBlank (c : Char) : Bool :=
  blankRanges.contains c.toNat

/-- The characters without the white space at both ends. -/
def trimChars (cs : List Char) : List Char :=
  ((cs.dropWhile isBlank).reverse.dropWhile isBlank).reverse

/-- The text without the white space at both ends. -/
def trim (s : String) : String :=
  String.ofList (trimChars s.toList)

theorem dropWhile_dropWhile {α : Type} (p : α → Bool) (xs : List α) :
    (xs.dropWhile p).dropWhile p = xs.dropWhile p := by
  induction xs with
  | nil => rfl
  | cons x xs ih => by_cases h : p x <;> simp [h, ih]

/-- Removing blanks in front of what has none there changes nothing, and the last character
that is kept shields those before it. -/
theorem dropWhile_reverse_dropWhile_reverse {α : Type} (p : α → Bool) {xs : List α}
    (h : xs.dropWhile p = xs) :
    ((xs.reverse.dropWhile p).reverse).dropWhile p = (xs.reverse.dropWhile p).reverse := by
  cases xs with
  | nil => rfl
  | cons x xs =>
    have hx : p x = false := by
      by_cases hx : p x
      · have hlen : (xs.dropWhile p).length ≤ xs.length := (List.dropWhile_suffix p).length_le
        rw [List.dropWhile_cons, if_pos hx] at h
        rw [h] at hlen
        exact absurd hlen (by simp)
      · simpa using hx
    rw [List.reverse_cons, List.dropWhile_append]
    split
    · simp [hx]
    · simp [hx]

theorem trimChars_trimChars (cs : List Char) : trimChars (trimChars cs) = trimChars cs := by
  have hfront := dropWhile_reverse_dropWhile_reverse isBlank (dropWhile_dropWhile isBlank cs)
  unfold trimChars
  rw [hfront, List.reverse_reverse, dropWhile_dropWhile]

@[simp] theorem trim_trim (s : String) : trim (trim s) = trim s := by
  simp [trim, trimChars_trimChars]

end Depsolve.Text
