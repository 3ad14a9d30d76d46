import Relabel.Text

/-!
# Moments

A second of the proleptic Gregorian calendar, and the ways a moment is written.
-/

namespace Relabel

/-- A date and a time of day. -/
structure Moment where
  year : Int
  month : Nat
  day : Nat
  hour : Nat
  minute : Nat
  second : Nat
  deriving DecidableEq, Repr

namespace Moment

/-- A year with 366 days. -/
def isLeapYear (y : Int) : Bool := y % 4 == 0 && (y % 100 != 0 || y % 400 == 0)

/-- How many days a month has; none for what is no month. -/
def daysInMonth (y : Int) (m : Nat) : Nat :=
  if m = 2 then if isLeapYear y then 29 else 28
  else if m = 4 ∨ m = 6 ∨ m = 9 ∨ m = 11 then 30
  else if 1 ≤ m ∧ m ≤ 12 then 31
  else 0

/-- The moment exists, in the years that the calendar reaches. -/
def isValid (t : Moment) : Bool :=
  -262143 ≤ t.year && t.year ≤ 262142 && 1 ≤ t.day && t.day ≤ daysInMonth t.year t.month &&
    t.hour < 24 && t.minute < 60 && t.second < 60

/-! ## Writing -/

/-- The year with at least four digits, with a sign outside 0 to 9999. -/
def yearText (t : Moment) : String :=
  let digits := Text.padNat 4 t.year.natAbs
  if t.year < 0 then "-" ++ digits else if 9999 < t.year then "+" ++ digits else digits

/-- The year within its century, counted upwards, with two digits. -/
def shortYearText (t : Moment) : String := Text.padNat 2 (t.year % 100).toNat

def monthText (t : Moment) : String := Text.padNat 2 t.month

def dayText (t : Moment) : String := Text.padNat 2 t.day

def hourText (t : Moment) : String := Text.padNat 2 t.hour

def minuteText (t : Moment) : String := Text.padNat 2 t.minute

/-- The hour on a clock face, from 01 to 12. -/
def clockHourText (t : Moment) : String :=
  Text.padNat 2 (if t.hour % 12 = 0 then 12 else t.hour % 12)

/-- The hour is past noon. -/
def isAfternoon (t : Moment) : Bool := 12 ≤ t.hour

end Moment
end Relabel
