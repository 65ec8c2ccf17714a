import SchemaMigration.Number.Binary64

/-!
# Numbers of 64 binary digits

`m · 2^e` with a mantissa of 64 binary digits: eleven more than a float has. A decimal is read, and the digits of a
float are found, by multiplying with powers of ten in this precision and rounding after each step, halves to the even
neighbour. `Extended.ofDecimal` and `Extended.leadingDigits` are therefore nearly, but not always, exact in the last
digit.
-/

namespace SchemaMigration.Number

/-- `mantissa · 2^exponent`. -/
structure Extended where
  mantissa : Nat
  exponent : Int
  deriving Repr, DecidableEq

namespace Extended

/-- The number nearest to `num / den`, which is not zero. -/
def ofQuotient (num den : Nat) : Extended :=
  let e := binaryExponent 64 num den
  ⟨roundHalfEven (scaled num den e).1 (scaled num den e).2, e⟩

/-- The number nearest to `10^k`. -/
def tenPower (k : Int) : Extended :=
  if k < 0 then ofQuotient 1 (Nat.pow 10 (-k).toNat) else ofQuotient (Nat.pow 10 k.toNat) 1

/-- The rounded product. -/
def mul (a b : Extended) : Extended :=
  let product := ofQuotient (a.mantissa * b.mantissa) 1
  { product with exponent := product.exponent + a.exponent + b.exponent }

/-- The exact value, as a quotient. -/
def quotient (a : Extended) : Nat × Nat :=
  scaled a.mantissa 1 (-a.exponent)

/-- One number is less than the other. -/
def below (a b : Extended) : Bool :=
  let (m, d) := a.quotient
  let (n, e) := b.quotient
  m * e < n * d

/-! ## Reading decimals -/

/-- The product with `10^k`, by steps of a hundred, ten and one. -/
def timesTenPower (a : Extended) (k : Int) : Extended :=
  let times (step count : Nat) (a : Extended) : Extended :=
    Nat.repeat (fun a => a.mul (tenPower (if k < 0 then -(step : Int) else step))) count a
  let n := k.natAbs
  times 1 (n % 10) (times 10 (n / 10 % 10) (times 100 (n / 100) a))

/-- The digits in front that 64 bits can hold with one more digit behind them, and the raised exponent; at most `fuel`
are left off. -/
def leading : Nat → Nat × Int → Nat × Int
  | 0, d => d
  | fuel + 1, (digits, exponent) =>
    if digits / 10 < 1844674407370955160 then (digits, exponent) else leading fuel (digits / 10, exponent + 1)

/-- The exponent brought as near to zero as it goes: zeros are put behind the digits as long as 64 bits hold them, or
taken off; at most `fuel`. -/
def balanced : Nat → Nat × Int → Nat × Int
  | 0, d => d
  | fuel + 1, (digits, exponent) =>
    if 0 < exponent && digits < 1844674407370955161 then balanced fuel (digits * 10, exponent - 1)
    else if exponent < 0 && digits % 10 == 0 then balanced fuel (digits / 10, exponent + 1)
    else (digits, exponent)

/-- The float read from `± digits · 10^exponent`. An exponent far outside the range of floats is not multiplied out. -/
def ofDecimal (negative : Bool) (digits : Nat) (exponent : Int) : Float :=
  let count := (Nat.toDigits 10 digits).length
  let magnitude : Int := count + exponent
  if digits == 0 || magnitude < -400 then Number.ofQuotient negative 0 1
  else if 400 < magnitude then infinity negative
  else
    let (digits, exponent) := balanced 420 (leading count (digits, exponent))
    if exponent == 0 then Number.ofQuotient negative digits 1
    else
      let (num, den) := ((ofQuotient digits 1).timesTenPower exponent).quotient
      -- what lies above the greatest float is infinite, even if that float is the nearest one
      if (Nat.pow 2 1024 - Nat.pow 2 971) * den < num then infinity negative else Number.ofQuotient negative num den

/-! ## Finding digits -/

/-- The product with `10^step` as often as the number is outside of a range, at most `fuel` times; the exponent of ten
that makes up for it comes with the number. -/
def scaleWhile (outside : Extended → Bool) (step : Int) : Nat → Extended × Int → Extended × Int
  | 0, a => a
  | fuel + 1, (a, k) =>
    if outside a then scaleWhile outside step fuel (a.mul (tenPower step), k - step) else (a, k)

/-- The first 18 digits of `num / den`, not zero, or the first 19 from `10^18` on, and the power of ten of the last of
them; what follows is cut off. -/
def leadingDigits (num den : Nat) : Nat × Int :=
  let a := ofQuotient num den
  let notBelow (k : Int) (a : Extended) : Bool := !a.below (tenPower k)
  let below (k : Int) (a : Extended) : Bool := a.below (tenPower k)
  let (a, k) :=
    if notBelow 19 a then
      scaleWhile (notBelow 19) (-1) 20 (scaleWhile (notBelow 29) (-10) 20 (scaleWhile (notBelow 119) (-100) 20 (a, 0)))
    else
      scaleWhile (below 17) 1 20 (scaleWhile (below 7) 10 20 (scaleWhile (below (-97)) 100 20 (a, 0)))
  let (num, den) := a.quotient
  (num / den, k)

end Extended

end SchemaMigration.Number
