import SchemaMigration.Number.Extended
import SchemaMigration.Number.Reader
import SchemaMigration.Script.BoundValue
import SchemaMigration.Text.Blank

/-!
# Cells of stored tables

The values of a store, their order, the conversion that the declared type of a column makes, and their form as literals.
-/

namespace SchemaMigration.Store

/-- A value in a row. -/
inductive Cell where
  | null
  | int (value : Int64)
  | float (value : Float)
  | text (value : String)
  | blob (octets : List UInt8)
  deriving Repr

namespace Cell

/-- The cell that a bound value becomes; NaN is null. -/
def ofBoundValue : BoundValue → Cell
  | .null => null
  | .bool b => int (if b then 1 else 0)
  | .int n => int n
  | .float x => if x.isNaN then null else float x
  | .text s => text s

/-! ## Order -/

/-- An integer against a float, exactly. -/
def compareIntFloat (n : Int) (x : Float) : Ordering :=
  match Number.partsOf x with
  | .nan => .gt
  | .infinite negative => if negative then .gt else .lt
  | .finite negative m e _ =>
    let m : Int := if negative then -(m : Int) else m
    if e < 0 then compare (n * Nat.pow 2 (-e).toNat) m else compare n (m * Nat.pow 2 e.toNat)

/-- The order of cells: null, numbers, texts, blobs. -/
def order : Cell → Cell → Ordering
  | null, null => .eq
  | null, _ => .lt
  | _, null => .gt
  | int a, int b => compare a.toInt b.toInt
  | int a, float b => compareIntFloat a.toInt b
  | float a, int b => (compareIntFloat b.toInt a).swap
  | float a, float b => if a < b then .lt else if a == b then .eq else .gt
  | int _, _ | float _, _ => .lt
  | _, int _ | _, float _ => .gt
  | text a, text b => compare a b
  | text _, blob _ => .lt
  | blob _, text _ => .gt
  | blob a, blob b => compare (a.map UInt8.toNat) (b.map UInt8.toNat)

/-- Two cells hold the same value; null is the same as nothing. -/
def same (a b : Cell) : Bool :=
  match a, b with
  | null, _ | _, null => false
  | a, b => order a b == .eq

/-! ## Floats as decimals -/

/-- The first 15 digits of a number, rounded half up, and the power of ten of the last of them. -/
def roundedDigits (digits : Nat) (exponent : Int) : Nat × Int :=
  let surplus := (Text.natText digits).length - 15
  if surplus == 0 then (digits, exponent)
  else
    let p := Nat.pow 10 (surplus - 1)
    ((digits / p + 5) / 10, exponent + surplus)

/-- Digits without the zeros at their end; one digit stays. -/
def withoutZeros (digits : List Char) : List Char :=
  match (digits.reverse.dropWhile (· == '0')).reverse with
  | [] => ['0']
  | ds => ds

/-- Digits with a point behind the first and an exponent. -/
def scientific (digits : List Char) (exponent : Int) : List Char :=
  let fraction := withoutZeros (digits.drop 1)
  digits.take 1 ++ '.' :: fraction ++ 'e' :: (if exponent < 0 then '-' else '+') :: Text.padded 2 exponent.natAbs

/-- Digits in positional notation, with at least one behind the point. -/
def positional (digits : List Char) (exponent : Int) : List Char :=
  if exponent < 0 then
    '0' :: '.' :: (List.replicate (-exponent - 1).toNat '0' ++ withoutZeros digits)
  else
    let whole := exponent.toNat + 1
    let digits := digits ++ List.replicate (whole - digits.length) '0'
    digits.take whole ++ '.' :: withoutZeros (digits.drop whole)

/-- The decimal `digits · 10^exponent`; an exponent is shown only where needed, unless `always`. -/
def decimalText (always : Bool) (digits : Nat) (exponent : Int) : List Char :=
  let ds := Text.natText digits
  let first : Int := exponent + ds.length - 1
  if always || first < -4 || 14 < first then scientific ds first else positional ds first

/-- A float in 15 digits, or, if `exact` and they do not read back, in all that are known of it; `huge` stands for
infinity. Zero has no sign. -/
def floatText (huge : String) (exact : Bool) (x : Float) : String :=
  let signed (negative : Bool) (cs : List Char) : String := String.ofList (if negative then '-' :: cs else cs)
  match Number.partsOf x with
  | .nan => "NULL"
  | .infinite negative => signed negative huge.toList
  | .finite negative m e _ =>
    if m == 0 then "0.0"
    else
      let (num, den) := Number.scaled m 1 (-e)
      let (digits, exponent) := Number.Extended.leadingDigits num den
      let (short, shortExponent) := roundedDigits digits exponent
      if exact && Number.Extended.ofDecimal negative short shortExponent != x then
        signed negative (decimalText true digits exponent)
      else signed negative (decimalText false short shortExponent)

/-! ## Literals -/

/-- Two hexadecimal digits. -/
def octetText (b : UInt8) : List Char :=
  let digit (n : Nat) : Char := Char.ofNat (if n < 10 then 48 + n else 55 + n)
  [digit (b.toNat / 16), digit (b.toNat % 16)]

/-- The literal of a cell. -/
def literal : Cell → String
  | null => "NULL"
  | int n => String.ofList (BoundValue.intChars n.toInt)
  | float x => floatText "9.0e+999" true x
  | text s => String.ofList (Text.enclosed '\'' s.toList)
  | blob octets => "X'" ++ String.ofList (octets.flatMap octetText) ++ "'"

end Cell

/-! ## Types of columns -/

/-- What the declared type of a column makes of the values put into it. -/
inductive Affinity where
  | blob | text | numeric | integer | real
  deriving Repr, DecidableEq

namespace Affinity

/-- The affinity of a declared type. -/
def ofType (type : String) : Affinity :=
  let name := Text.lowerText type
  let mentions (words : List String) : Bool := words.any fun w => (name.splitOn w).length != 1
  if mentions ["int"] then integer
  else if mentions ["char", "clob", "text"] then text
  else if name == "" || mentions ["blob"] then blob
  else if mentions ["real", "floa", "doub"] then real
  else numeric

/-- The whole number that a float is, if 64 bits hold it. -/
def wholeNumber? (x : Float) : Option Int64 :=
  match Number.partsOf x with
  | .finite negative m e _ =>
    let p := Nat.pow 2 (-e).toNat
    let n : Int := if e < 0 then m / p else m * Nat.pow 2 e.toNat
    if (0 ≤ e || m % p == 0) && n < Int64.maxValue.toInt - 511 then
      some (Int64.ofInt (if negative then -n else n))
    else none
  | _ => none

/-- The number that a text spells, blanks around it aside. -/
def number? (s : String) : Option Cell :=
  let (negative, r) := Number.takeSign (Text.trim s).toList
  match Number.readDecimal r with
  | none => none
  | some (digits, exponent) =>
    let n : Int := if negative then -(digits : Int) else digits
    if exponent == 0 && r.all Text.isDigit && Int64.minValue.toInt ≤ n && n ≤ Int64.maxValue.toInt then
      some (.int (Int64.ofInt n))
    else some (.float (Number.Extended.ofDecimal negative digits exponent))

/-- A number without a needless fraction. -/
def reduced : Cell → Cell
  | .float x => ((wholeNumber? x).map Cell.int).getD (.float x)
  | c => c

/-- What becomes of a value in a column. -/
def convert (a : Affinity) (c : Cell) : Cell :=
  match a, c with
  | text, .int n => .text (String.ofList (BoundValue.intChars n.toInt))
  | text, .float x => .text (Cell.floatText "Inf" false x)
  | numeric, .text s | integer, .text s => ((number? s).map reduced).getD c
  | numeric, .float _ | integer, .float _ => reduced c
  | real, .int n => .float (Float.ofInt n.toInt)
  | real, .text s =>
    match number? s with
    | some (.int n) => .float (Float.ofInt n.toInt)
    | some x => x
    | none => c
  | _, c => c

end Affinity

end SchemaMigration.Store
