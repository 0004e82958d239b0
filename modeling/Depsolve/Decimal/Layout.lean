import Depsolve.Decimal.Shortest

/-!
Doubles in writing, in two styles. The positional one gives all places. The scientific one
is positional for numbers of moderate size and else has one digit in front of the point
and a power of ten with its sign. Both keep the point and a digit behind it where they are
positional. Of two shortest decimals equally near, the positional style takes the larger
and the scientific one the even.
-/

namespace Depsolve

namespace DecimalNumber

/-- The digits of the decimal. -/
def digitChars (d : DecimalNumber) : List Char := Nat.toDigits 10 d.digits

/-- The number of digits in front of the point, when the decimal is written positionally. -/
def pointPlace (d : DecimalNumber) : Int := d.digitChars.length + d.exponent

/-- The decimal with all its places. -/
def positional (d : DecimalNumber) : List Char :=
  let digits := d.digitChars
  let place := d.pointPlace
  if 0 ≤ d.exponent then digits ++ List.replicate d.exponent.toNat '0' ++ ['.', '0']
  else if 0 < place then digits.take place.toNat ++ '.' :: digits.drop place.toNat
  else '0' :: '.' :: List.replicate (-place).toNat '0' ++ digits

/-- A power of ten with its sign. -/
def powerChars (power : Int) : List Char :=
  (if power < 0 then '-' else '+') :: Nat.toDigits 10 power.natAbs

/-- The decimal with a power of ten. -/
def withPower (d : DecimalNumber) : List Char :=
  let power := powerChars (d.pointPlace - 1)
  match d.digitChars with
  | [] => []
  | [c] => c :: 'e' :: power
  | c :: rest => c :: '.' :: rest ++ 'e' :: power

/-- The decimal with a power of ten if it has more than 16 digits in front of the point or
more than four zeros behind it. -/
def scientific (d : DecimalNumber) : List Char :=
  if d.digits = 0 ∨ (-5 < d.pointPlace ∧ d.pointPlace ≤ 16) then d.positional else d.withPower

end DecimalNumber

/-- How doubles are written. -/
structure DoubleStyle where
  /-- The choice between two shortest decimals. -/
  tie : Tie
  /-- The decimal in writing. -/
  layout : DecimalNumber → List Char

namespace DoubleStyle

/-- All places, and of two shortest decimals the larger. -/
def positional : DoubleStyle := ⟨.upward, DecimalNumber.positional⟩

/-- A power of ten where the number is very large or small, and of two shortest decimals
the even one. -/
def scientific : DoubleStyle := ⟨.toEven, DecimalNumber.scientific⟩

/-- A double in writing. -/
def chars (style : DoubleStyle) (x : Float) : List Char :=
  let bits := x.toBits.toNat
  let sign := if bits / Nat.pow 2 63 = 1 then ['-'] else []
  if x.isNaN then "NaN".toList
  else if x.isInf then sign ++ "inf".toList
  else sign ++ style.layout ((BinaryNumber.ofBits bits).shortest style.tie)

end DoubleStyle

end Depsolve
