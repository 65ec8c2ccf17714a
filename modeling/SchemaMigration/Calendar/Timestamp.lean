import SchemaMigration.Calendar.Date
import SchemaMigration.Text.Blank

/-!
# Instants and timestamps

An instant in UTC, written as `YYYY-MM-DD hh:mm:ss`, and the two forms of timestamps that records may hold: the strict
one with `T` and an offset, and the loose one, which takes fewer digits and white space between its parts.
-/

namespace SchemaMigration

/-- An instant: whole seconds since 1970 in UTC and nanoseconds. A leap second is the second before it with a thousand
million nanoseconds or more. -/
structure Instant where
  seconds : Int
  nanoseconds : Nat := 0
  deriving Repr, DecidableEq

namespace Calendar

/-- The seconds of a day. -/
def secondsPerDay : Int := 86400

end Calendar

namespace Instant

open Calendar

/-- The day of an instant. -/
def day (t : Instant) : Int :=
  t.seconds / secondsPerDay

/-- The second of its day. -/
def secondOfDay (t : Instant) : Nat :=
  (t.seconds % secondsPerDay).toNat

/-- An instant as `YYYY-MM-DD hh:mm:ss`; a leap second is number 60. -/
def text (t : Instant) : String :=
  let year := yearOf t.day
  let (month, day) := monthAndDay (monthLengths year) 0 (dayOfYear t.day)
  let s := t.secondOfDay
  let two := Text.padded 2
  String.ofList (yearText year ++ '-' :: two (month + 1) ++ '-' :: two (day + 1) ++ ' ' :: two (s / 3600) ++
    ':' :: two (s / 60 % 60) ++ ':' :: two (s % 60 + t.nanoseconds / 1000000000))

end Instant

namespace Calendar

/-- The parts of a timestamp without an offset. -/
structure Clock where
  year : Int
  month : Nat
  day : Nat
  hour : Nat
  minute : Nat
  second : Nat
  nanosecond : Nat
  deriving Repr

/-- The instant that a clock with the given offset from UTC, in seconds, shows; `none` for a time that no clock
shows. -/
def Clock.instant? (c : Clock) (offset : Int) : Option Instant :=
  if -262143 ≤ c.year && c.year ≤ 262142 && c.hour ≤ 23 && c.minute ≤ 59 && c.second ≤ 60 then
    (dayNumber? c.year c.month c.day).map fun day =>
      let leap := c.second == 60
      let second := if leap then 59 else c.second
      { seconds := day * secondsPerDay + (c.hour * 3600 + c.minute * 60 + second : Nat) - offset
        nanoseconds := c.nanosecond + if leap then 1000000000 else 0 }
  else none

/-- A number of exactly `n` digits in front of a text. -/
def exactDigits (n : Nat) (s : List Char) : Option (Nat × List Char) :=
  let digits := s.take n
  if digits.length == n && digits.all Text.isDigit then some (Text.decimalValue 0 digits, s.drop n) else none

/-- A number of one to `n` digits in front of a text, with white space before it. -/
def looseDigits (n : Nat) (s : List Char) : Option (Nat × List Char) :=
  let s := Text.dropBlank s
  let digits := (s.take n).takeWhile Text.isDigit
  if digits.isEmpty then none else some (Text.decimalValue 0 digits, s.drop digits.length)

/-- A text without the character `c` in front. -/
def expect (c : Char) (s : List Char) : Option (List Char) :=
  match s with
  | d :: r => if d == c then some r else none
  | [] => none

/-- The nanoseconds of an optional fraction in front of a text. -/
def fraction (s : List Char) : Option (Nat × List Char) :=
  match s with
  | '.' :: r =>
    let digits := r.takeWhile Text.isDigit
    if digits.isEmpty then none
    else
      let nine := digits.take 9
      some (Text.decimalValue 0 nine * Nat.pow 10 (9 - nine.length), r.drop digits.length)
  | s => some (0, s)

/-- An offset from UTC in seconds, with nothing after it. -/
def offset? (s : List Char) : Option Int :=
  match s with
  | ['Z'] | ['z'] => some 0
  | sign :: r => do
    let negative ← if sign == '+' then some false else if sign == '-' || sign == '\u2212' then some true else none
    let (hours, r) ← exactDigits 2 r
    let (minutes, r) ← exactDigits 2 (← expect ':' r)
    if r.isEmpty && hours ≤ 23 && minutes ≤ 59 then
      let n : Int := (hours * 3600 + minutes * 60 : Nat)
      some (if negative then -n else n)
    else none
  | [] => none

/-- The instant of a timestamp in the strict form. -/
def strictInstant? (s : List Char) : Option Instant := do
  let (year, s) ← exactDigits 4 s
  let (month, s) ← exactDigits 2 (← expect '-' s)
  let (day, s) ← exactDigits 2 (← expect '-' s)
  let s ← match s with
    | c :: r => if c == 'T' || c == 't' || c == ' ' then some r else none
    | [] => none
  let (hour, s) ← exactDigits 2 s
  let (minute, s) ← exactDigits 2 (← expect ':' s)
  let (second, s) ← exactDigits 2 (← expect ':' s)
  let (nanosecond, s) ← fraction s
  let offset ← offset? s
  Clock.instant? { year, month, day, hour, minute, second, nanosecond } offset

/-- A year in the loose form: one to four digits, or any number of them after a sign. -/
def looseYear (s : List Char) : Option (Int × List Char) :=
  match Text.dropBlank s with
  | '-' :: r =>
    let digits := r.takeWhile Text.isDigit
    if digits.isEmpty then none else some (-(Text.decimalValue 0 digits : Int), r.drop digits.length)
  | '+' :: r =>
    let digits := r.takeWhile Text.isDigit
    if digits.isEmpty then none else some ((Text.decimalValue 0 digits : Int), r.drop digits.length)
  | s => (looseDigits 4 s).map fun (n, r) => ((n : Int), r)

/-- The instant of a timestamp in the loose form, which is in UTC. -/
def looseInstant? (s : List Char) : Option Instant := do
  let (year, s) ← looseYear s
  let (month, s) ← looseDigits 2 (← expect '-' s)
  let (day, s) ← looseDigits 2 (← expect '-' s)
  let (hour, s) ← looseDigits 2 s
  let (minute, s) ← looseDigits 2 (← expect ':' s)
  let (second, s) ← looseDigits 2 (← expect ':' s)
  let (nanosecond, s) ← fraction s
  if s.isEmpty then Clock.instant? { year, month, day, hour, minute, second, nanosecond } 0 else none

end Calendar

/-- The instant of a timestamp in either form. -/
def Instant.parse? (text : String) : Option Instant :=
  Calendar.strictInstant? text.toList <|> Calendar.looseInstant? text.toList

end SchemaMigration
