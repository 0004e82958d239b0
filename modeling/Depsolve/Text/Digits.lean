/-!
Decimal numerals and the 64-bit words they denote.
-/

namespace Depsolve.Text

/-- The number that a row of decimal digits denotes. -/
def digitsValue (cs : List Char) : Nat :=
  cs.foldl (fun n c => 10 * n + (c.toNat - '0'.toNat)) 0

/-- The decimal numeral of a number. -/
def decimal (n : Nat) : List Char :=
  Nat.toDigits 10 n

/-- The decimal numeral of a word. -/
def wordDecimal (w : UInt64) : List Char :=
  decimal w.toNat

/-- The word that a row of digits denotes: at least one digit, nothing but digits, and a
value below 2 to the 64. -/
def word? (cs : List Char) : Option UInt64 :=
  if !cs.isEmpty && cs.all Char.isDigit && digitsValue cs < UInt64.size then
    some (UInt64.ofNat (digitsValue cs))
  else none

end Depsolve.Text
