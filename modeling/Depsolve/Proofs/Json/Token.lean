import Depsolve.Json.Basic
import Depsolve.Json.Token
import Depsolve.Proofs.Text

/-!
Tokens read off what is written for them.

* `tokens_space` and `tokens_token` unfold the tokens of a text by one character and by one
  token.
* A text between quotes is one token (`readToken_quoteChars`), since an escaped character is
  read as one piece that stands for it.
* An integer that a word holds is one token (`readToken_integerChars`). A number has no end of
  its own, so something has to follow that can not go on with it.
-/

namespace Depsolve.Json

variable {c : Char} {cs rest : List Char}

/-! ### Tokens in a row -/

theorem tokens_space (h : isSpace c = true) (cs : List Char) : tokens (c :: cs) = tokens cs := by
  rw [tokens, if_pos h]

theorem tokens_token {t : Token} (hspace : isSpace c = false)
    (h : readToken (c :: cs) = some (t, rest)) :
    tokens (c :: cs) = (tokens rest).map (t :: ·) := by
  rw [tokens, if_neg (by simp [hspace])]
  split
  · rename_i hnone
    rw [h] at hnone
    cases hnone
  · rename_i t' rest' hsome
    rw [h] at hsome
    cases hsome
    rfl

/-! ### Texts -/

theorem hexUnit?_control :
    ∀ n < 0x20, hexUnit? '0' '0' (hexDigit (n / 16)) (hexDigit (n % 16)) = some n := by
  decide

theorem readPieces_letter {l : Char} (hl : l ≠ 'u') (hc : unescape? l = some c) (cs : List Char) :
    readPieces ('\\' :: l :: cs) = (readPieces cs).map fun (ps, rest) => (.char c :: ps, rest) := by
  rw [readPieces, hc]
  · cases readPieces cs <;> rfl
  · intro a b c' d rest' h
    exact absurd h hl

theorem readPieces_control {n : Nat} (hn : n < 0x20) (cs : List Char) :
    readPieces ('\\' :: 'u' :: '0' :: '0' :: hexDigit (n / 16) :: hexDigit (n % 16) :: cs) =
      (readPieces cs).map fun (ps, rest) => (.unit n :: ps, rest) := by
  rw [readPieces, hexUnit?_control n hn]
  cases readPieces cs <;> rfl

theorem readPieces_plain (hquote : c ≠ '"') (hslash : c ≠ '\\') (hc : ¬ c.toNat < 0x20)
    (cs : List Char) :
    readPieces (c :: cs) = (readPieces cs).map fun (ps, rest) => (.char c :: ps, rest) := by
  rw [readPieces, if_neg]
  · cases readPieces cs <;> rfl
  · simp [hslash, hc]
  · exact hquote
  · rintro a b c' d rest rfl
    exact absurd rfl hslash
  · rintro l rest rfl
    exact absurd rfl hslash

/-- A control character is no surrogate. -/
theorem joinPieces_control (hc : c.toNat < 0x20) (ps : List Piece) :
    joinPieces (.unit c.toNat :: ps) = (joinPieces ps).map (c :: ·) := by
  have hunit : c.toNat < 0xd800 := by omega
  rw [joinPieces.eq_def]
  simp only [hunit, decide_true, Bool.true_or, if_true, Char.ofNat_toNat]

/-- An escaped character is read as one piece that stands for it. -/
theorem exists_piece (c : Char) :
    ∃ p : Piece, (∀ cs, readPieces (escape c ++ cs) =
        (readPieces cs).map fun (ps, rest) => (p :: ps, rest)) ∧
      ∀ ps, joinPieces (p :: ps) = (joinPieces ps).map (c :: ·) := by
  unfold escape
  split
  case h_8 hquote hslash _ _ _ _ _ =>
    split
    · rename_i hcontrol
      exact ⟨.unit c.toNat, fun cs => readPieces_control hcontrol cs, joinPieces_control hcontrol⟩
    · rename_i hcontrol
      exact ⟨.char c, fun cs => readPieces_plain hquote hslash hcontrol cs, fun _ => rfl⟩
  all_goals exact ⟨.char _, fun cs => readPieces_letter (by decide) rfl cs, fun _ => rfl⟩

/-- Escaped characters are read back up to the closing quote. -/
theorem exists_pieces (cs rest : List Char) :
    ∃ ps, readPieces (cs.flatMap escape ++ '"' :: rest) = some (ps, rest) ∧
      joinPieces ps = some cs := by
  induction cs with
  | nil => exact ⟨[], by rw [List.flatMap_nil, List.nil_append, readPieces], rfl⟩
  | cons c cs ih =>
    obtain ⟨ps, hread, hjoin⟩ := ih
    obtain ⟨p, hpiece, hvalue⟩ := exists_piece c
    refine ⟨p :: ps, ?_, ?_⟩
    · rw [List.flatMap_cons, List.append_assoc, hpiece, hread]
      rfl
    · rw [hvalue, hjoin]
      rfl

/-- A text between quotes is read back. -/
theorem readToken_quoteChars (s : String) (rest : List Char) :
    readToken (quoteChars s ++ rest) = some (.text (some s), rest) := by
  obtain ⟨ps, hread, hjoin⟩ := exists_pieces s.toList rest
  have htext : readToken ('"' :: (s.toList.flatMap escape ++ '"' :: rest)) =
      readText (s.toList.flatMap escape ++ '"' :: rest) := rfl
  simp only [quoteChars, List.cons_append, List.append_assoc, List.nil_append]
  rw [htext, readText, hread]
  simp [hjoin]

/-! ### Numbers -/

/-- What may stand behind a value: the end, a comma or a new line. -/
def Ends (rest : List Char) : Prop := ∀ c, rest.head? = some c → c = ',' ∨ c = '\n'

theorem spanDigits_append {digits : List Char} (hdigits : ∀ c ∈ digits, c.isDigit = true)
    (h : Ends rest) : spanDigits (digits ++ rest) = (digits, rest) := by
  have hrest : rest.takeWhile Char.isDigit = [] ∧ rest.dropWhile Char.isDigit = rest := by
    cases rest with
    | nil => exact ⟨rfl, rfl⟩
    | cons c cs => rcases h c rfl with rfl | rfl <;> exact ⟨rfl, rfl⟩
  rw [spanDigits, List.takeWhile_append_of_pos hdigits, List.dropWhile_append_of_pos hdigits,
    hrest.1, hrest.2, List.append_nil]

theorem readFraction_of_ends (h : Ends rest) : readFraction rest = some (none, rest) := by
  cases rest with
  | nil => rfl
  | cons c cs => rcases h c rfl with rfl | rfl <;> rfl

theorem readPower_of_ends (h : Ends rest) : readPower rest = some (none, rest) := by
  cases rest with
  | nil => rfl
  | cons c cs => rcases h c rfl with rfl | rfl <;> rfl

theorem readNumber_toDigits (negative : Bool) (n : Nat) (h : Ends rest) :
    readNumber negative (Nat.toDigits 10 n ++ rest) =
      some (.scalar (Numeral.datum ⟨negative, Nat.toDigits 10 n, none, none⟩), rest) := by
  have hspan := spanDigits_append (fun c hc => Text.isDigit_of_mem_toDigits (n := n) hc) h
  have hshape : ¬ ((Nat.toDigits 10 n).isEmpty ||
      ((Nat.toDigits 10 n).head? == some '0' && (Nat.toDigits 10 n).length != 1)) = true := by
    simp only [Bool.or_eq_true, List.isEmpty_iff, Nat.toDigits_ne_nil, false_or, Bool.and_eq_true,
      beq_iff_eq, bne_iff_ne, ne_eq, not_and, Decidable.not_not]
    intro hzero
    rw [Text.eq_zero_of_head?_toDigits hzero]
    rfl
  have hread : readNumeral negative (Nat.toDigits 10 n ++ rest) =
      some (⟨negative, Nat.toDigits 10 n, none, none⟩, rest) := by
    rw [readNumeral, hspan]
    dsimp only
    rw [if_neg hshape, readFraction_of_ends h]
    dsimp
    rw [readPower_of_ends h]
    rfl
  rw [readNumber, hread]
  rfl

theorem datum_toDigits (negative : Bool) (n : Nat) :
    Numeral.datum ⟨negative, Nat.toDigits 10 n, none, none⟩ =
      if negative then
        if 0 < n ∧ n ≤ Nat.pow 2 63 then .integer (-(n : Int))
        else Numeral.asFloat ⟨negative, Nat.toDigits 10 n, none, none⟩
      else if n < Nat.pow 2 64 then .integer n
      else Numeral.asFloat ⟨negative, Nat.toDigits 10 n, none, none⟩ := by
  have hvalue : Text.digitsValue (Nat.toDigits 10 n) = n := Text.digitsValue_toDigits n
  simp only [Numeral.datum, hvalue, Option.isSome_none, Bool.or_self, Bool.false_eq_true, if_false]

theorem readToken_digit (hc : c.isDigit = true) (cs : List Char) :
    readToken (c :: cs) = readNumber false (c :: cs) := by
  unfold readToken
  split <;> first | rfl | (rename_i heq; cases heq; cases hc)

/-- An integer that a word holds, signed or not. -/
def FitsWord (n : Int) : Prop := -(Nat.pow 2 63 : Nat) ≤ n ∧ n < (Nat.pow 2 64 : Nat)

/-- An integer that a word holds is read back. -/
theorem readToken_integerChars {n : Int} (hn : FitsWord n) (h : Ends rest) :
    readToken (integerChars n ++ rest) = some (.scalar (.integer n), rest) := by
  obtain ⟨hlow, hhigh⟩ := hn
  cases n with
  | ofNat n =>
    have hread : readToken (Nat.toDigits 10 n ++ rest) =
        readNumber false (Nat.toDigits 10 n ++ rest) := by
      obtain ⟨c, cs, hcs, hdigit⟩ := Text.exists_toDigits_eq_cons n
      rw [hcs]
      exact readToken_digit hdigit _
    have hfits : n < Nat.pow 2 64 := Int.ofNat_lt.mp hhigh
    rw [integerChars, hread, readNumber_toDigits false n h, datum_toDigits,
      if_neg Bool.false_ne_true, if_pos hfits]
    rfl
  | negSucc n =>
    have hread : readToken ('-' :: (Nat.toDigits 10 (n + 1) ++ rest)) =
        readNumber true (Nat.toDigits 10 (n + 1) ++ rest) := rfl
    have hfits : 0 < n + 1 ∧ n + 1 ≤ Nat.pow 2 63 := by omega
    rw [integerChars, List.cons_append, hread, readNumber_toDigits true (n + 1) h, datum_toDigits,
      if_pos rfl, if_pos hfits]
    rfl

end Depsolve.Json
