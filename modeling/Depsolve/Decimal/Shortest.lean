/-!
The shortest decimal that denotes a binary number of double precision: of the decimals that
round to the number, those with the fewest digits count, and of these the nearest to it.
Two of them can be equally near; which one is taken then is a choice of the format.

A finite number is `mantissa * 2 ^ exponent`. The reals that round to it form an interval,
whose ends belong to it if the mantissa is even. For one, two and more digits the decimals
with so many digits form a grid; the first grid with a point in the interval gives the
answer. Two neighbours of the number on the grid are enough to look at.
-/

namespace Depsolve

/-- A positive binary number and whether it is the least with its exponent, so that the
number below it is nearer than the one above. -/
structure BinaryNumber where
  mantissa : Nat
  exponent : Int
  isLeast : Bool
  deriving DecidableEq

/-- The decimal `digits * 10 ^ exponent`. -/
structure DecimalNumber where
  digits : Nat
  exponent : Int
  deriving DecidableEq

/-- Which of two equally near decimals with the same number of digits is taken. -/
inductive Tie where
  /-- The one whose last digit is even. -/
  | toEven
  /-- The larger one. -/
  | upward
  deriving DecidableEq

/-- Whether the lower of two equally near decimals is taken; `digits` are those of the
lower one. -/
def Tie.takesLower (tie : Tie) (digits : Nat) : Bool :=
  match tie with
  | toEven => digits % 2 == 0
  | upward => false

namespace BinaryNumber

/-- The number with these bits, sign apart; only for finite numbers. -/
def ofBits (bits : Nat) : BinaryNumber :=
  let fraction : Nat := bits % Nat.pow 2 52
  let power : Nat := bits / Nat.pow 2 52 % Nat.pow 2 11
  if power = 0 then ⟨fraction, -1074, false⟩
  else ⟨Nat.pow 2 52 + fraction, (power : Int) - 1075, fraction == 0 && power > 1⟩

/-- Four times the number as a quotient: the numerator and the denominator. -/
def quadruple (b : BinaryNumber) : Nat × Nat :=
  if 0 ≤ b.exponent then (4 * b.mantissa * Nat.pow 2 b.exponent.toNat, 1)
  else (4 * b.mantissa, Nat.pow 2 (-b.exponent).toNat)

/-- Whether a decimal rounds to the number. -/
def isRoundedFrom (b : BinaryNumber) (d : DecimalNumber) : Bool :=
  let (scale, divisor) :=
    if 0 ≤ d.exponent then (Nat.pow 10 d.exponent.toNat, 1)
    else (1, Nat.pow 10 (-d.exponent).toNat)
  let (unit, denominator) :=
    if 0 ≤ b.exponent then (Nat.pow 2 b.exponent.toNat, 1)
    else (1, Nat.pow 2 (-b.exponent).toNat)
  let low := (4 * b.mantissa - if b.isLeast then 1 else 2) * unit * divisor
  let high := (4 * b.mantissa + 2) * unit * divisor
  let value := 4 * d.digits * scale * denominator
  if b.mantissa % 2 = 0 then low ≤ value && value ≤ high else low < value && value < high

/-- The exponent of the leading digit of `numerator / denominator`, which is positive. -/
def leading (numerator denominator : Nat) : Int :=
  if denominator ≤ numerator then
    ((Nat.toDigits 10 (numerator / denominator)).length : Int) - 1
  else
    let places := (List.range 400).find? fun n => denominator ≤ numerator * Nat.pow 10 n
    Int.negOfNat (places.getD 0)

/-- The grid point with `count` digits that rounds to the number, if there is one; of two
the nearer, and the one that `tie` asks for where both are as near. -/
def onGrid? (tie : Tie) (b : BinaryNumber) (count : Nat) : Option DecimalNumber :=
  let (four, denominator) := b.quadruple
  let exponent := leading four (4 * denominator) - (count - 1 : Nat)
  let (numerator, divisor) :=
    if 0 ≤ exponent then (four, 4 * denominator * Nat.pow 10 exponent.toNat)
    else (four * Nat.pow 10 (-exponent).toNat, 4 * denominator)
  let floor := numerator / divisor
  let rest := numerator % divisor
  let below : DecimalNumber := ⟨floor, exponent⟩
  let above : DecimalNumber := ⟨floor + 1, exponent⟩
  let belowFirst := 2 * rest < divisor || (2 * rest == divisor && tie.takesLower floor)
  (if belowFirst then [below, above] else [above, below]).find? b.isRoundedFrom

/-- A decimal without zeros at its end. -/
def withoutZeros (d : DecimalNumber) : DecimalNumber :=
  let zeros := ((Nat.toDigits 10 d.digits).reverse.takeWhile (· == '0')).length
  if d.digits = 0 then ⟨0, 0⟩ else ⟨d.digits / Nat.pow 10 zeros, d.exponent + zeros⟩

/-- The shortest decimal that rounds to the number; zero is its own. -/
def shortest (tie : Tie) (b : BinaryNumber) : DecimalNumber :=
  if b.mantissa = 0 then ⟨0, 0⟩
  else withoutZeros (((List.range 17).findSome? fun n => b.onGrid? tie (n + 1)).getD ⟨0, 0⟩)

end BinaryNumber

end Depsolve
