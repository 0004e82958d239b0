import Depsolve.Document.Datum
import Depsolve.Text.Digits
import Depsolve.Toml.Scan

/-!
TOML dates and times. A date has to be in the calendar; a time has seconds, and with a
date it may have an offset. As a datum a moment is a mapping with its text under one key.
-/

namespace Depsolve.Toml

/-- A time of the day; `fraction` are the digits behind the point of the seconds. -/
structure ClockTime where
  hour : Nat
  minute : Nat
  second : Nat
  fraction : List Char

/-- A day of the calendar. -/
structure CalendarDay where
  year : Nat
  month : Nat
  day : Nat

/-- The offset of local time: none of its own, or hours and minutes behind or ahead. -/
inductive ClockOffset where
  | universal
  | shifted (behind : Bool) (hour minute : Nat)

/-! ### Reading -/

/-- A number of exactly `count` digits, if so many are in front. -/
def fixedDigits? (count : Nat) (cs : List Char) : Option (Nat × List Char) :=
  let digits := cs.take count
  if digits.length = count ∧ digits.all Char.isDigit then
    some (Text.digitsValue digits, cs.drop count)
  else none

/-- A number of two digits up to `most`. -/
def twoDigits? (most : Nat) (cs : List Char) : Option (Nat × List Char) := do
  let (n, rest) ← fixedDigits? 2 cs
  if n ≤ most then some (n, rest) else none

/-- A number of two digits up to `most`, which has to come next. -/
def twoDigits (most : Nat) : Scanner Nat := fun cs =>
  match twoDigits? most cs with
  | some scanned => .ok scanned
  | none => .error cs

/-- The number of days of a month. -/
def monthLength (year month : Nat) : Nat :=
  if month = 2 then
    if year % 4 = 0 ∧ (year % 100 ≠ 0 ∨ year % 400 = 0) then 29 else 28
  else if month ∈ [4, 6, 9, 11] then 30
  else 31

/-- The month and the day behind a year and a dash. -/
def dayOfYear (year : Nat) (cs : List Char) : Except (List Char) (CalendarDay × List Char) := do
  let (month, afterMonth) ← twoDigits 12 cs
  if month = 0 then throw cs
  let (_, cs) ← expect '-' afterMonth
  let (day, rest) ← twoDigits (monthLength year month) cs
  if day = 0 then throw cs
  return (⟨year, month, day⟩, rest)

/-- A day, if four digits and a dash are in front. -/
def day? (cs : List Char) : Option (Scanned CalendarDay) :=
  match fixedDigits? 4 cs with
  | some (year, '-' :: cs) => some (dayOfYear year cs)
  | _ => none

/-- The digits behind the point of the seconds. -/
def secondFraction : Scanner (List Char)
  | '.' :: cs =>
    let digits := cs.takeWhile Char.isDigit
    if digits.isEmpty then .ok ([], '.' :: cs) else .ok (digits, cs.dropWhile Char.isDigit)
  | cs => .ok ([], cs)

/-- The minute and the second behind an hour and a colon. -/
def timeOfHour (hour : Nat) (cs : List Char) : Except (List Char) (ClockTime × List Char) := do
  let (minute, cs) ← twoDigits 59 cs
  let (_, cs) ← expect ':' cs
  let (second, cs) ← twoDigits 60 cs
  let (fraction, rest) ← secondFraction cs
  return (⟨hour, minute, second, fraction⟩, rest)

/-- A time, if an hour and a colon are in front. -/
def time? (cs : List Char) : Option (Scanned ClockTime) :=
  match twoDigits? 23 cs with
  | some (hour, ':' :: cs) => some (timeOfHour hour cs)
  | _ => none

/-- The hours and minutes of an offset. -/
def shiftBy (behind : Bool) (cs : List Char) :
    Except (List Char) (Option ClockOffset × List Char) := do
  let (hour, cs) ← twoDigits 23 cs
  let (_, cs) ← expect ':' cs
  let (minute, rest) ← twoDigits 59 cs
  return (some (.shifted behind hour minute), rest)

/-- The offset behind a time, if there is one. -/
def offset : Scanner (Option ClockOffset)
  | [] => .ok (none, [])
  | c :: cs =>
    if c = 'Z' ∨ c = 'z' then .ok (some .universal, cs)
    else if c = '+' ∨ c = '-' then shiftBy (c == '-') cs
    else .ok (none, c :: cs)

/-! ### Writing -/

/-- A number with zeros in front up to a width. -/
def padded (width n : Nat) : List Char :=
  let digits := Nat.toDigits 10 n
  List.replicate (width - digits.length) '0' ++ digits

/-- A day. -/
def CalendarDay.chars (d : CalendarDay) : List Char :=
  padded 4 d.year ++ '-' :: padded 2 d.month ++ '-' :: padded 2 d.day

/-- A time, with up to nine digits behind the point of the seconds. -/
def ClockTime.chars (t : ClockTime) : List Char :=
  let fraction := ((t.fraction.take 9).reverse.dropWhile (· == '0')).reverse
  padded 2 t.hour ++ ':' :: padded 2 t.minute ++ ':' :: padded 2 t.second
    ++ (if fraction.isEmpty then [] else '.' :: fraction)

/-- An offset; no offset at all is never behind. -/
def ClockOffset.chars : ClockOffset → List Char
  | universal => ['Z']
  | shifted behind hour minute =>
    (if behind && (hour != 0 || minute != 0) then '-' else '+')
      :: padded 2 hour ++ ':' :: padded 2 minute

/-- The datum of a moment in writing. -/
def momentDatum (written : List Char) : Datum :=
  .mapping [("$__toml_private_datetime", .text (String.ofList written))]

/-- A time in writing, with the offset behind it. -/
def shiftedTime (scanned : Scanned ClockTime) : Except (List Char) (List Char × List Char) := do
  let (time, rest) ← scanned
  let (shift, rest) ← offset rest
  return (time.chars ++ (shift.map ClockOffset.chars).getD [], rest)

/-- What stands behind a day: a letter or a space and a time, or nothing. -/
def timeOfDay (cs : List Char) : Scanned (List Char) :=
  match cs with
  | [] => .ok ([], [])
  | c :: rest =>
    match if c = 'T' ∨ c = 't' ∨ c = ' ' then time? rest else none with
    | none => .ok ([], cs)
    | some scanned => (shiftedTime scanned).map fun (time, rest) => ('T' :: time, rest)

/-- A day in writing, with the time behind it. -/
def timedDay (scanned : Scanned CalendarDay) : Except (List Char) (List Char × List Char) := do
  let (day, rest) ← scanned
  let (time, rest) ← timeOfDay rest
  return (day.chars ++ time, rest)

/-- A date, a time or both, if the characters begin like one. -/
def moment? (cs : List Char) : Option (Scanned Datum) :=
  let written :=
    (day? cs).map timedDay <|>
      (time? cs).map fun scanned => scanned.map fun (time, rest) => (time.chars, rest)
  written.map fun scanned => scanned.map fun (chars, rest) => (momentDatum chars, rest)

end Depsolve.Toml
