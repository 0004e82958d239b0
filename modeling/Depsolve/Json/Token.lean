import Depsolve.Json.Numeral

/-!
The tokens of a JSON text: brackets, colons, commas and scalars, with white space between
them. Texts with half of a surrogate pair and numbers above all doubles are tokens as
well; they have no value.
-/

namespace Depsolve.Json

/-- A token. -/
inductive Token where
  | openObject
  | closeObject
  | openArray
  | closeArray
  | colon
  | comma
  /-- A text, unless it has half of a surrogate pair. -/
  | text (s : Option String)
  /-- Any other scalar. -/
  | scalar (d : Datum)

/-! ### Texts -/

/-- A piece of a text: a character, or a unit of the two-byte encoding given by its
number. -/
inductive Piece where
  | char (c : Char)
  | unit (n : Nat)

/-- The character of a pair of surrogates. -/
def surrogatePair (high low : Nat) : Char :=
  Char.ofNat (0x10000 + (high - 0xd800) * 0x400 + (low - 0xdc00))

/-- The characters that pieces stand for, unless a surrogate stands alone. -/
def joinPieces : List Piece → Option (List Char)
  | [] => some []
  | .char c :: rest => (joinPieces rest).map (c :: ·)
  | .unit n :: rest =>
    if n < 0xd800 || 0xdfff < n then (joinPieces rest).map (Char.ofNat n :: ·)
    else match rest with
      | .unit m :: rest =>
        if n < 0xdc00 && 0xdc00 ≤ m && m ≤ 0xdfff then
          (joinPieces rest).map (surrogatePair n m :: ·)
        else none
      | _ => none

/-- The value of a digit to base sixteen. -/
def hexValue? (c : Char) : Option Nat :=
  if c.isDigit then some (c.toNat - '0'.toNat)
  else if 'a' ≤ c ∧ c ≤ 'f' then some (c.toNat - 'a'.toNat + 10)
  else if 'A' ≤ c ∧ c ≤ 'F' then some (c.toNat - 'A'.toNat + 10)
  else none

/-- The value of four digits to base sixteen. -/
def hexUnit? (a b c d : Char) : Option Nat := do
  return (((← hexValue? a) * 16 + (← hexValue? b)) * 16 + (← hexValue? c)) * 16 + (← hexValue? d)

/-- The character that a letter stands for after a backslash. -/
def unescape? : Char → Option Char
  | '"' => some '"'
  | '\\' => some '\\'
  | '/' => some '/'
  | 'b' => some '\x08'
  | 'f' => some '\x0c'
  | 'n' => some '\n'
  | 'r' => some '\r'
  | 't' => some '\t'
  | _ => none

/-- The pieces up to the closing quote, and what follows it. -/
def readPieces : List Char → Option (List Piece × List Char)
  | [] => none
  | '"' :: rest => some ([], rest)
  | '\\' :: 'u' :: a :: b :: c :: d :: rest => do
    let n ← hexUnit? a b c d
    let (pieces, rest) ← readPieces rest
    return (.unit n :: pieces, rest)
  | '\\' :: c :: rest => do
    let c ← unescape? c
    let (pieces, rest) ← readPieces rest
    return (.char c :: pieces, rest)
  | c :: rest =>
    if c.toNat < 0x20 || c == '\\' then none
    else do
      let (pieces, rest) ← readPieces rest
      return (.char c :: pieces, rest)

/-- The token of a text whose opening quote is read. -/
def readText (cs : List Char) : Option (Token × List Char) := do
  let (pieces, rest) ← readPieces cs
  return (.text ((joinPieces pieces).map String.ofList), rest)

/-! ### Numbers -/

/-- The digits in front, and what follows them. -/
def spanDigits (cs : List Char) : List Char × List Char :=
  (cs.takeWhile Char.isDigit, cs.dropWhile Char.isDigit)

/-- The digits behind a point, if there is one. -/
def readFraction : List Char → Option (Option (List Char) × List Char)
  | '.' :: cs =>
    let (digits, rest) := spanDigits cs
    if digits.isEmpty then none else some (some digits, rest)
  | cs => some (none, cs)

/-- A sign, where minus tells to divide, and what follows it. -/
def readSign : List Char → Bool × List Char
  | '-' :: cs => (true, cs)
  | '+' :: cs => (false, cs)
  | cs => (false, cs)

/-- The power of ten, if there is one. -/
def readPower : List Char → Option (Option (Bool × List Char) × List Char)
  | [] => some (none, [])
  | c :: cs =>
    if c = 'e' ∨ c = 'E' then
      let (down, cs) := readSign cs
      let (digits, rest) := spanDigits cs
      if digits.isEmpty then none else some (some (down, digits), rest)
    else some (none, c :: cs)

/-- A number without its sign. No zero stands in front of other digits. -/
def readNumeral (negative : Bool) (cs : List Char) : Option (Numeral × List Char) := do
  let (whole, rest) := spanDigits cs
  if whole.isEmpty || (whole.head? == some '0' && whole.length != 1) then none
  else
    let (fraction, rest) ← readFraction rest
    let (power, rest) ← readPower rest
    return (⟨negative, whole, fraction, power⟩, rest)

/-- The token of a number. -/
def readNumber (negative : Bool) (cs : List Char) : Option (Token × List Char) := do
  let (n, rest) ← readNumeral negative cs
  return (.scalar n.datum, rest)

/-! ### Tokens in a row -/

/-- The space between tokens. -/
def isSpace (c : Char) : Bool := c == ' ' || c == '\t' || c == '\n' || c == '\r'

/-- The token that begins with a character other than a space, and what follows it. -/
def readToken : List Char → Option (Token × List Char)
  | '\x7b' :: cs => some (.openObject, cs)
  | '\x7d' :: cs => some (.closeObject, cs)
  | '[' :: cs => some (.openArray, cs)
  | ']' :: cs => some (.closeArray, cs)
  | ':' :: cs => some (.colon, cs)
  | ',' :: cs => some (.comma, cs)
  | '"' :: cs => readText cs
  | '-' :: cs => readNumber true cs
  | 'n' :: 'u' :: 'l' :: 'l' :: cs => some (.scalar .null, cs)
  | 't' :: 'r' :: 'u' :: 'e' :: cs => some (.scalar (.bool true), cs)
  | 'f' :: 'a' :: 'l' :: 's' :: 'e' :: cs => some (.scalar (.bool false), cs)
  | cs => readNumber false cs

theorem length_readPieces {cs rest : List Char} {pieces : List Piece}
    (h : readPieces cs = some (pieces, rest)) : rest.length < cs.length := by
  fun_induction readPieces cs generalizing pieces rest with
  | case1 => simp at h
  | case2 => cases h; simp
  | case3 a b c d cs ih =>
    simp only [Option.bind_eq_bind, Option.bind_eq_some_iff] at h
    obtain ⟨n, _, ⟨pieces', rest'⟩, h', h⟩ := h
    cases h
    have := ih h'
    simp; omega
  | case4 c cs _ ih =>
    simp only [Option.bind_eq_bind, Option.bind_eq_some_iff] at h
    obtain ⟨c', _, ⟨pieces', rest'⟩, h', h⟩ := h
    cases h
    have := ih h'
    simp; omega
  | case5 => simp at h
  | case6 c cs _ _ _ _ ih =>
    simp only [Option.bind_eq_bind, Option.bind_eq_some_iff] at h
    obtain ⟨⟨pieces', rest'⟩, h', h⟩ := h
    cases h
    have := ih h'
    simp; omega

theorem length_spanDigits (cs : List Char) :
    (spanDigits cs).1.length + (spanDigits cs).2.length = cs.length := by
  rw [← List.length_append, spanDigits, List.takeWhile_append_dropWhile]

theorem length_readFraction {cs rest : List Char} {fraction : Option (List Char)}
    (h : readFraction cs = some (fraction, rest)) : rest.length ≤ cs.length := by
  unfold readFraction at h
  split at h
  · rename_i cs
    have := length_spanDigits cs
    dsimp only at h
    split at h
    · simp at h
    · cases h
      simp; omega
  · cases h
    exact Nat.le_refl _

theorem length_readSign (cs : List Char) : (readSign cs).2.length ≤ cs.length := by
  unfold readSign
  split <;> simp

theorem length_readPower {cs rest : List Char} {power : Option (Bool × List Char)}
    (h : readPower cs = some (power, rest)) : rest.length ≤ cs.length := by
  unfold readPower at h
  split at h
  · cases h; simp
  · rename_i c cs
    split at h
    · have := length_readSign cs
      have := length_spanDigits (readSign cs).2
      dsimp only at h
      split at h
      · simp at h
      · cases h
        simp; omega
    · cases h
      simp

theorem length_readNumber {negative : Bool} {cs rest : List Char} {t : Token}
    (h : readNumber negative cs = some (t, rest)) : rest.length < cs.length := by
  simp only [readNumber, Option.bind_eq_bind, Option.bind_eq_some_iff] at h
  obtain ⟨⟨n, rest'⟩, h, ht⟩ := h
  cases ht
  unfold readNumeral at h
  have hlen := length_spanDigits cs
  dsimp only at h
  split at h
  · simp at h
  · rename_i hwhole
    simp only [Option.bind_eq_bind, Option.bind_eq_some_iff] at h
    obtain ⟨⟨fraction, r⟩, hfraction, ⟨power, r'⟩, hpower, h⟩ := h
    cases h
    have h1 := length_readFraction hfraction
    have h2 := length_readPower hpower
    have h3 : (spanDigits cs).1 ≠ [] := by
      intro h
      simp [h] at hwhole
    have := List.length_pos_iff.mpr h3
    dsimp only at h1 h2 ⊢
    omega

theorem length_readToken {cs rest : List Char} {t : Token}
    (h : readToken cs = some (t, rest)) : rest.length < cs.length := by
  unfold readToken at h
  split at h
  case h_7 cs =>
    simp only [readText, Option.bind_eq_bind, Option.bind_eq_some_iff] at h
    obtain ⟨⟨pieces, r⟩, hpieces, h⟩ := h
    cases h
    have := length_readPieces hpieces
    simp; omega
  case h_8 cs =>
    have := length_readNumber h
    simp; omega
  case h_12 => exact length_readNumber h
  all_goals cases h; simp; try omega

/-- The tokens of a text, unless something in it is no token. -/
def tokens : List Char → Option (List Token)
  | [] => some []
  | c :: cs =>
    if isSpace c then tokens cs
    else match _ : readToken (c :: cs) with
      | none => none
      | some (t, rest) => (tokens rest).map (t :: ·)
termination_by cs => cs.length
decreasing_by
  · simp
  · exact length_readToken ‹readToken (c :: cs) = some (t, rest)›

end Depsolve.Json
