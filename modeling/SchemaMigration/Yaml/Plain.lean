import SchemaMigration.Number.Reader

/-!
# What a plain scalar means

A scalar without quotes stands for null, a boolean, an integer or a float if its text spells one, and for a text
otherwise. Integers are written in decimal, or after `0x`, `0o` and `0b`; decimal digits after a leading zero are a
text.
-/

namespace SchemaMigration.Yaml

/-- The text spells null. -/
def isNullWord (s : List Char) : Bool :=
  s == ['~'] || s == "null".toList || s == "Null".toList || s == "NULL".toList

/-- The boolean that a text spells. -/
def boolWord? (s : List Char) : Option Bool :=
  if s == "true".toList || s == "True".toList || s == "TRUE".toList then some true
  else if s == "false".toList || s == "False".toList || s == "FALSE".toList then some false
  else none

/-- The number that digits of a base spell, at least one. -/
def digitsValue? (base : Nat) (digits : List Char) : Option Nat :=
  if digits.isEmpty then none
  else digits.foldlM (fun n c => (Text.hexValue? c).bind fun d => if d < base then some (n * base + d) else none) 0

/-- Two or more decimal digits with a leading zero, behind an optional sign. -/
def hasLeadingZero (s : List Char) : Bool :=
  match (Number.takeSign s).2 with
  | '0' :: r => !r.isEmpty && r.all Text.isDigit
  | _ => false

/-- The number that an unsigned text spells in one of the bases, or in decimal if `decimal` allows it. -/
def magnitude? (decimal : Bool) (s : List Char) : Option Nat :=
  let inDecimal := if decimal then digitsValue? 10 s else none
  match s with
  | '0' :: 'x' :: r => digitsValue? 16 r <|> inDecimal
  | '0' :: 'o' :: r => digitsValue? 8 r <|> inDecimal
  | '0' :: 'b' :: r => digitsValue? 2 r <|> inDecimal
  | _ => inDecimal

/-- The integer that a text spells. -/
def integer? (s : List Char) : Option Int :=
  let (negative, r) := Number.takeSign s
  (magnitude? (!hasLeadingZero s) r).map fun n => if negative then -(n : Int) else n

/-- The float that a text spells: infinity, NaN, or a number in decimal notation that is finite. -/
def float? (s : List Char) : Option Float :=
  let (negative, r) := Number.takeSign s
  let word := String.ofList r
  if word == ".inf" || word == ".Inf" || word == ".INF" then some (Number.infinity negative)
  else if s == ".nan".toList || s == ".NaN".toList || s == ".NAN".toList then some (0.0 / 0.0)
  else (Number.readFloat? (String.ofList s)).filter Number.isFinite

end SchemaMigration.Yaml
