import Depsolve.Decimal.Layout
import Depsolve.Document.Datum
import Depsolve.Text.Digits

/-!
The value of a JSON number. A whole number that fits a word of 64 bits, signed or not,
is an integer. All other numbers are doubles: the leading digits that fit an unsigned word
are multiplied or divided by a power of ten. A number above all doubles has no value.
-/

namespace Depsolve.Json

/-- The parts of a number in writing. -/
structure Numeral where
  negative : Bool
  /-- The digits in front of the point. -/
  whole : List Char
  /-- The digits behind the point. -/
  fraction : Option (List Char)
  /-- The sign and the digits of the power of ten. -/
  power : Option (Bool × List Char)
  deriving DecidableEq

namespace Numeral

/-- The digits read on from a value, as long as the value fits a word, and those left. -/
def gather (value : Nat) : List Char → Nat × List Char
  | [] => (value, [])
  | c :: cs =>
    let next := 10 * value + (c.toNat - '0'.toNat)
    if next < Nat.pow 2 64 then gather next cs else (value, c :: cs)

/-- The leading digits as a word, and the power of ten to scale it by. A word that is full
at the point may still take digits behind it. -/
def significand (n : Numeral) : Nat × Int :=
  let (value, left) := gather 0 n.whole
  match n.fraction with
  | none => (value, left.length)
  | some digits =>
    let (value, unused) := gather value digits
    (value, (left.length : Int) - ((digits.length : Int) - unused.length))

/-- A double divided by a power of ten, in steps small enough for the divisors to be
doubles. -/
def divide (x : Float) (power : Nat) : Float :=
  if power ≤ 308 then x / Float.ofScientific 1 false power
  else if x == 0.0 then x
  else divide (x / 1e308) (power - 308)
termination_by power

/-- A word scaled by a power of ten, if a double is large enough. -/
def scale (word : Nat) (power : Int) : Option Float :=
  let x := (UInt64.ofNat word).toFloat
  if power < 0 then some (divide x (-power).toNat)
  else if power ≤ 308 then
    let y := x * Float.ofScientific 1 false power.toNat
    if y.isInf then none else some y
  else if x == 0.0 then some x
  else none

/-- The magnitude of the number as a double. A power of ten that does not fit a word of 31
bits makes the number zero or too large. -/
def magnitude (n : Numeral) : Option Float :=
  let (word, shift) := n.significand
  match n.power with
  | none => scale word shift
  | some (down, digits) =>
    let power := Text.digitsValue digits
    if power < Nat.pow 2 31 then scale word (if down then shift - power else shift + power)
    else if word = 0 || down then some 0.0
    else none

/-- The number as a double. -/
def asFloat (n : Numeral) : Datum :=
  match n.magnitude with
  | some x =>
    .float (String.ofList (DoubleStyle.scientific.chars (if n.negative then -x else x)))
  | none => .unreadable

/-- The value of the number. -/
def datum (n : Numeral) : Datum :=
  let value := Text.digitsValue n.whole
  if n.fraction.isSome || n.power.isSome then n.asFloat
  else if n.negative then
    if 0 < value ∧ value ≤ Nat.pow 2 63 then .integer (-(value : Int)) else n.asFloat
  else if value < Nat.pow 2 64 then .integer value
  else n.asFloat

end Numeral

end Depsolve.Json
