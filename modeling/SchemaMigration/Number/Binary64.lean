/-!
# Binary floating point numbers as exact values

A finite `Float` is `± m · 2^e`. This module takes the parts out of the bits and rounds an exact quotient back to the
nearest `Float`, halves to the even neighbour, so that reading and writing decimals need no arithmetic on floats.
-/

namespace SchemaMigration.Number

/-- The parts of a floating point number. -/
inductive Parts where
  | nan
  | infinite (negative : Bool)
  /-- `± mantissa · 2^exponent`; `tight` says that the next lower number is half as far as the next higher one. -/
  | finite (negative : Bool) (mantissa : Nat) (exponent : Int) (tight : Bool)
  deriving Repr, DecidableEq

/-- The parts that 64 bits stand for. -/
def Parts.ofBits (bits : UInt64) : Parts :=
  let n := bits.toNat
  let negative := n / Nat.pow 2 63 == 1
  let biased := n / Nat.pow 2 52 % 2048
  let fraction := n % Nat.pow 2 52
  if biased == 2047 then
    if fraction == 0 then .infinite negative else .nan
  else if biased == 0 then .finite negative fraction (-1074) false
  else .finite negative (Nat.pow 2 52 + fraction) (Int.ofNat biased - 1075) (fraction == 0 && biased != 1)

/-- The parts of a float. -/
def partsOf (x : Float) : Parts :=
  Parts.ofBits x.toBits

/-- A float that is a number: neither NaN nor infinite. -/
def isFinite (x : Float) : Bool :=
  match partsOf x with
  | .finite .. => true
  | _ => false

/-- The quotient rounded to the nearest natural number, halves to the even one. -/
def roundHalfEven (num den : Nat) : Nat :=
  let q := num / den
  let r := num % den
  if 2 * r < den then q
  else if den < 2 * r then q + 1
  else if q % 2 == 0 then q else q + 1

/-- The number of binary digits. -/
def bitLength (n : Nat) : Nat :=
  if n == 0 then 0 else n.log2 + 1

/-- The quotient of `num / den` and `2^e`. -/
def scaled (num den : Nat) (e : Int) : Nat × Nat :=
  if e < 0 then (num * Nat.pow 2 (-e).toNat, den) else (num, den * Nat.pow 2 e.toNat)

/-- The power of two that leaves `n` binary digits of `num / den`, not zero, before the point. -/
def binaryExponent (n num den : Nat) : Int :=
  let guess : Int := (bitLength num : Int) - (bitLength den : Int) - n
  let whole := (scaled num den guess).1 / (scaled num den guess).2
  if whole < Nat.pow 2 (n - 1) then guess - 1 else if Nat.pow 2 n ≤ whole then guess + 1 else guess

/-- The bits of the float nearest to `num / den`, without a sign. -/
def nearestBits (num den : Nat) : Nat :=
  if num == 0 then 0
  else
    -- 53 digits before the point, or as many as the least power of two leaves
    let e := max (binaryExponent 53 num den) (-1074)
    let m := roundHalfEven (scaled num den e).1 (scaled num den e).2
    -- a mantissa that was rounded up to 2^53 carries into the exponent by itself
    let bits := if m < Nat.pow 2 52 then m else (e + 1075).toNat * Nat.pow 2 52 + (m - Nat.pow 2 52)
    min bits (2047 * Nat.pow 2 52)

/-- The float nearest to `± num / den`. -/
def ofQuotient (negative : Bool) (num den : Nat) : Float :=
  let sign := if negative then Nat.pow 2 63 else 0
  Float.ofBits (UInt64.ofNat (sign + nearestBits num den))

/-- An infinite float. -/
def infinity (negative : Bool) : Float :=
  ofQuotient negative (Nat.pow 2 2000) 1

/-- The float nearest to `± digits · 10^exponent`. An exponent far outside the range of floats is not multiplied out. -/
def ofDecimal (negative : Bool) (digits : Nat) (exponent : Int) : Float :=
  let magnitude : Int := (Nat.toDigits 10 digits).length + exponent
  if digits == 0 || magnitude < -400 then ofQuotient negative 0 1
  else if 400 < magnitude then infinity negative
  else if exponent < 0 then ofQuotient negative digits (Nat.pow 10 (-exponent).toNat)
  else ofQuotient negative (digits * Nat.pow 10 exponent.toNat) 1

end SchemaMigration.Number
