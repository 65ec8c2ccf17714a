import SchemaMigration.Number.Binary64
import SchemaMigration.Text.Ascii

/-!
# The shortest decimal of a float

Of all decimals that read back as a given float, the one with the fewest digits, and among those the nearest to the
exact value; a tie goes away from zero. The search tries one digit, then two, and so on: a decimal with `n` digits
inside the float's rounding interval exists only if one of the two neighbours of the exact value on that grid lies in
it.
-/

namespace SchemaMigration.Number

/-- `digits · 10^exponent`. -/
structure Decimal where
  digits : Nat
  exponent : Int
  deriving Repr, DecidableEq

/-- The numbers that round to a given float: from `low / den` to `high / den` around `value / den`, with both ends when
`closed`. -/
structure Interval where
  low : Nat
  value : Nat
  high : Nat
  den : Nat
  closed : Bool

/-- The rounding interval of `mantissa · 2^exponent`. -/
def Interval.ofParts (mantissa : Nat) (exponent : Int) (tight : Bool) : Interval :=
  let up := if exponent < 2 then 1 else Nat.pow 2 (exponent - 2).toNat
  let den := if exponent < 2 then Nat.pow 2 (2 - exponent).toNat else 1
  { low := (4 * mantissa - if tight then 1 else 2) * up
    value := 4 * mantissa * up
    high := (4 * mantissa + 2) * up
    den := den
    closed := mantissa % 2 == 0 }

/-- Whether `num / d` lies in the interval. -/
def Interval.contains (i : Interval) (num d : Nat) : Bool :=
  let x := num * i.den
  if i.closed then i.low * d ≤ x && x ≤ i.high * d else i.low * d < x && x < i.high * d

/-- The nearer of the two neighbours of the value among the multiples of `10^k`, if it lies in the interval; a tie goes
up. If only one of them lies in the interval, that one. -/
def Interval.onGrid (i : Interval) (k : Int) : Option Nat :=
  let p := if k < 0 then Nat.pow 10 (-k).toNat else 1
  let t := if k < 0 then 1 else Nat.pow 10 k.toNat
  -- the value is value·p / (den·t) steps of the grid
  let num := i.value * p
  let den := i.den * t
  let d := num / den
  let r := num % den
  let inside (n : Nat) : Bool := i.contains (n * t) p
  let up := den ≤ 2 * r
  if r == 0 then some d
  else match inside d, inside (d + 1) with
    | true, true => some (if up then d + 1 else d)
    | true, false => some d
    | false, true => some (d + 1)
    | false, false => none

/-- The first grid, from coarse to fine, on which the interval has a point; at most `fuel` grids are tried. -/
def Interval.search (i : Interval) : Nat → Int → Decimal
  | 0, k => ⟨(i.onGrid k).getD 0, k⟩
  | fuel + 1, k =>
    match i.onGrid k with
    | some d => ⟨d, k⟩
    | none => search i fuel (k - 1)

/-- `digits` without the zeros at its end, the exponent raised for each; at most `fuel` are taken off. -/
def Decimal.stripZeros : Nat → Decimal → Decimal
  | 0, d => d
  | fuel + 1, d =>
    if d.digits != 0 && d.digits % 10 == 0 then stripZeros fuel ⟨d.digits / 10, d.exponent + 1⟩ else d

/-- The least power of ten above `num / den`, or one more. -/
def decimalExponent (num den : Nat) : Int :=
  let above (k : Int) : Bool := if k < 0 then num * Nat.pow 10 (-k).toNat < den else num < den * Nat.pow 10 k.toNat
  let guess : Int := ((bitLength num : Int) - (bitLength den : Int)) * 30103 / 100000
  let k := guess + 1
  if above (k - 1) then k - 1 else if above k then k else k + 1

/-- The shortest decimal of `mantissa · 2^exponent`. -/
def shortest (mantissa : Nat) (exponent : Int) (tight : Bool) : Decimal :=
  if mantissa == 0 then ⟨0, 0⟩
  else
    let i := Interval.ofParts mantissa exponent tight
    (i.search 17 (decimalExponent i.value i.den)).stripZeros 20

/-- A decimal in positional notation: no exponent, no point where there is no fraction. -/
def Decimal.positional (d : Decimal) : List Char :=
  let digits := Text.natText d.digits
  if 0 ≤ d.exponent then digits ++ List.replicate d.exponent.toNat '0'
  else
    let places := (-d.exponent).toNat
    if places < digits.length then
      digits.take (digits.length - places) ++ '.' :: digits.drop (digits.length - places)
    else '0' :: '.' :: (List.replicate (places - digits.length) '0' ++ digits)

/-- A float as text: the shortest decimal in positional notation, with a minus sign also on zero; `NaN` has no sign. -/
def floatChars (x : Float) : List Char :=
  match partsOf x with
  | .nan => "NaN".toList
  | .infinite negative => (if negative then "-inf" else "inf").toList
  | .finite negative m e tight =>
    let zero := if m == 0 then ⟨0, 0⟩ else shortest m e tight
    (if negative then ['-'] else []) ++ zero.positional

/-- A float as text. -/
def floatText (x : Float) : String :=
  String.ofList (floatChars x)

end SchemaMigration.Number
