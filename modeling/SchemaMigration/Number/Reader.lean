import SchemaMigration.Number.Binary64
import SchemaMigration.Text.Ascii

/-!
# Reading floating point numbers

The accepted texts: an optional sign, then `inf`, `infinity` or `nan` in any case, or decimal digits with an optional
point and an optional exponent, at least one digit standing before the exponent. Nothing may surround the number.
-/

namespace SchemaMigration.Number

open Text (isDigit decimalValue)

/-- A sign in front of a text, and the text without it. -/
def takeSign : List Char → Bool × List Char
  | '+' :: r => (false, r)
  | '-' :: r => (true, r)
  | r => (false, r)

/-- The exponent part of a number: nothing, or `e` with an optional sign and at least one digit. -/
def readExponent : List Char → Option Int
  | [] => some 0
  | c :: r =>
    if c == 'e' || c == 'E' then
      let (negative, ds) := takeSign r
      if ds.isEmpty || !ds.all isDigit then none
      else
        let n : Int := decimalValue 0 ds
        some (if negative then -n else n)
    else none

/-- The unsigned decimal number that a text spells: its digits and its exponent. -/
def readDecimal (s : List Char) : Option (Nat × Int) :=
  let whole := s.takeWhile isDigit
  let r := s.dropWhile isDigit
  let (fraction, r) := match r with
    | '.' :: r => (r.takeWhile isDigit, r.dropWhile isDigit)
    | r => ([], r)
  if whole.isEmpty && fraction.isEmpty then none
  else
    let digits := decimalValue (decimalValue 0 whole) fraction
    (readExponent r).map fun e => (digits, e - fraction.length)

/-- The float that a text spells, if it spells one. -/
def readFloat? (s : String) : Option Float :=
  let (negative, r) := takeSign s.toList
  let word := String.ofList (r.map Text.lower)
  if word == "inf" || word == "infinity" then some (infinity negative)
  else if word == "nan" then some (0.0 / 0.0)
  else (readDecimal r).map fun (digits, e) => ofDecimal negative digits e

end SchemaMigration.Number
