import SchemaMigration.Text.Ascii

/-!
# Dates

The proleptic Gregorian calendar as a count of days from 1970-01-01, in both directions, with the day of the year.
-/

namespace SchemaMigration.Calendar

def isLeapYear (year : Int) : Bool :=
  year % 4 == 0 && (year % 100 != 0 || year % 400 == 0)

/-- The number of days from 1970-01-01 to the first day of a year. -/
def daysBeforeYear (year : Int) : Int :=
  let y := year - 1
  365 * (year - 1970) + (y / 4 - y / 100 + y / 400) - 477

/-- The lengths of the months of a year. -/
def monthLengths (year : Int) : List Nat :=
  [31, if isLeapYear year then 29 else 28, 31, 30, 31, 30, 31, 31, 30, 31, 30, 31]

/-- The number of days in a year. -/
def yearLength (year : Int) : Nat :=
  if isLeapYear year then 366 else 365

/-- The number of days in a year before the first of a month, counted from one. -/
def daysBeforeMonth (year : Int) (month : Nat) : Nat :=
  ((monthLengths year).take (month - 1)).foldl (· + ·) 0

/-- The day with a year, a month and a day of the month, all counted from one, as days from 1970-01-01; `none` if
there is no such day. -/
def dayNumber? (year : Int) (month day : Nat) : Option Int :=
  match (monthLengths year)[month - 1]? with
  | some length =>
    if 1 ≤ month && 1 ≤ day && day ≤ length then
      some (daysBeforeYear year + (daysBeforeMonth year month : Nat) + (day - 1 : Nat))
    else none
  | none => none

/-- The year of a day. The guess from the mean length of a year is at most one off. -/
def yearOf (days : Int) : Int :=
  let guess := (days * 400) / 146097 + 1970
  if days < daysBeforeYear guess then guess - 1
  else if daysBeforeYear (guess + 1) ≤ days then guess + 1
  else guess

/-- The day of its year, counted from zero. -/
def dayOfYear (days : Int) : Nat :=
  (days - daysBeforeYear (yearOf days)).toNat

/-- The month and the day of a day of the year, all counted from zero; `lengths` are the months still to pass. -/
def monthAndDay : List Nat → Nat → Nat → Nat × Nat
  | [], month, day => (month, day)
  | n :: ns, month, day => if day < n then (month, day) else monthAndDay ns (month + 1) (day - n)

/-- A year in at least four digits, with a sign where it has more or lies before year zero. -/
def yearText (year : Int) : List Char :=
  if year < 0 then '-' :: Text.padded 4 year.natAbs
  else if 9999 < year then '+' :: Text.padded 4 year.natAbs
  else Text.padded 4 year.natAbs

end SchemaMigration.Calendar
