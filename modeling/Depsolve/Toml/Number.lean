import Depsolve.Decimal.Layout
import Depsolve.Document.Datum
import Depsolve.Text.Digits
import Depsolve.Toml.Scan

/-!
TOML numbers. Single underscores may stand between digits. Integers are signed words of 64
bits; they may be written to base sixteen, eight or two with a small letter after a zero
and without a sign. A number with a point or a power of ten is a double, as are `inf` and
`nan`; only a negative number may be too large for one.
-/

namespace Depsolve.Toml

/-- Digits with single underscores between them, the first of which is read. -/
def moreDigits (isDigit : Char → Bool) : Scanner (List Char)
  | [] => .ok ([], [])
  | '_' :: c :: cs =>
    if isDigit c then (moreDigits isDigit cs).map fun (ds, rest) => (c :: ds, rest)
    else .error (c :: cs)
  | ['_'] => .error []
  | c :: cs =>
    if isDigit c then (moreDigits isDigit cs).map fun (ds, rest) => (c :: ds, rest)
    else .ok ([], c :: cs)

/-- At least one digit. -/
def someDigits (isDigit : Char → Bool) : Scanner (List Char)
  | [] => .error []
  | c :: cs =>
    if isDigit c then (moreDigits isDigit cs).map fun (ds, rest) => (c :: ds, rest)
    else .error (c :: cs)

/-- Decimal digits, of which a zero in front is the only one. -/
def wholeDigits : Scanner (List Char)
  | '0' :: cs => .ok (['0'], cs)
  | cs => someDigits Char.isDigit cs

/-- A sign, where minus counts, and what follows it. -/
def sign : List Char → Bool × List Char
  | '-' :: cs => (true, cs)
  | '+' :: cs => (false, cs)
  | cs => (false, cs)

/-! ### Doubles -/

/-- The double nearest to `digits * 10 ^ power`. -/
def nearestDouble (digits : Nat) (power : Int) : Float :=
  let size : Int := (Nat.toDigits 10 digits).length + power
  if digits = 0 || size < -330 then 0.0
  else if size > 310 then 1.0 / 0.0
  else Float.ofScientific digits (decide (power < 0)) power.natAbs

/-- A double as a datum. -/
def doubleDatum (x : Float) : Datum := .float (String.ofList (DoubleStyle.positional.chars x))

/-- The digits behind a point, if there is one. -/
def fraction : Scanner (Option (List Char))
  | '.' :: cs => (someDigits Char.isDigit cs).map fun (ds, rest) => (some ds, rest)
  | cs => .ok (none, cs)

/-- The power of ten, if there is one. -/
def power : Scanner (Option Int)
  | [] => .ok (none, [])
  | c :: cs =>
    if c = 'e' ∨ c = 'E' then
      let (negative, cs) := sign cs
      (someDigits Char.isDigit cs).map fun (ds, rest) =>
        let n : Int := Text.digitsValue ds
        (some (if negative then -n else n), rest)
    else .ok (none, c :: cs)

/-- The name of a special double, and what follows it. -/
def special? : List Char → Option (Float × List Char)
  | 'i' :: 'n' :: 'f' :: cs => some (1.0 / 0.0, cs)
  | 'n' :: 'a' :: 'n' :: cs => some (0.0 / 0.0, cs)
  | _ => none

/-! ### Numbers -/

/-- The integer of a word, if it is one. -/
def integer? (n : Int) : Option Datum :=
  if -Int.pow 2 63 ≤ n ∧ n < Int.pow 2 63 then some (.integer n) else none

/-- An integer to another base; `begin` is given back where it is too large. -/
def basedInteger (base : Nat) (begin cs : List Char) :
    Except (List Char) (Datum × List Char) := do
  let digitOf (c : Char) : Option Nat :=
    if c.isDigit then some (c.toNat - '0'.toNat)
    else if 'a' ≤ c ∧ c ≤ 'f' then some (c.toNat - 'a'.toNat + 10)
    else if 'A' ≤ c ∧ c ≤ 'F' then some (c.toNat - 'A'.toNat + 10)
    else none
  let (ds, rest) ← someDigits (fun c => (digitOf c).any (· < base)) cs
  match integer? (ds.foldl (fun n c => base * n + ((digitOf c).getD 0 : Nat)) (0 : Nat)) with
  | some d => return (d, rest)
  | none => throw begin

/-- A decimal number without its sign; `begin` is given back where it is too large. -/
def decimalNumber (negative : Bool) (begin cs : List Char) :
    Except (List Char) (Datum × List Char) := do
  let (whole, rest) ← wholeDigits cs
  let (behind, rest) ← fraction rest
  let (exponent, rest) ← power rest
  if behind.isNone && exponent.isNone then
    let n : Int := Text.digitsValue whole
    match integer? (if negative then -n else n) with
    | some d => return (d, rest)
    | none => throw begin
  else
    let behind := behind.getD []
    let x := nearestDouble (Text.digitsValue (whole ++ behind))
      (exponent.getD 0 - behind.length)
    if x.isInf && !negative then throw begin
    else return (doubleDatum (if negative then -x else x), rest)

/-- A number of any kind. -/
def number (begin : List Char) : Scanned Datum :=
  match begin with
  | '0' :: 'x' :: cs => basedInteger 16 begin cs
  | '0' :: 'o' :: cs => basedInteger 8 begin cs
  | '0' :: 'b' :: cs => basedInteger 2 begin cs
  | _ =>
    let (negative, cs) := sign begin
    match special? cs with
    | some (x, rest) => .ok (doubleDatum (if negative then -x else x), rest)
    | none => decimalNumber negative begin cs

end Depsolve.Toml
