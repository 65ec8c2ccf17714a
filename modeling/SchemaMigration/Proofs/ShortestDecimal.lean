import SchemaMigration.Number.Reader
import SchemaMigration.Number.Shortest
import Mathlib.Algebra.Order.Field.Power
import Mathlib.Data.Rat.Cast.Order
import Mathlib.Tactic.Linarith
import Mathlib.Tactic.NormNum
import Mathlib.Tactic.Positivity
import Mathlib.Tactic.Ring

/-!
# Decimals that read back

The decimal that is written for a float is one of the numbers that round to it (`holds_shortest`). Whatever the search
for it finds on a grid lies in the float's rounding interval, so what is left is that it finds something: it starts with
a power of ten that is at most ten times the float (`le_decimalExponent`), and seventeen grids later the grid is finer
than the interval is wide (`isSome_onGrid`).

A decimal with a fraction is written with a point, and reading it gives the same digits and the same exponent
(`Decimal.exists_positional`).
-/

namespace SchemaMigration.Number

/-- The decimal is one of the numbers that round to the float. -/
def Interval.Holds (i : Interval) (d : Decimal) : Prop :=
  i.contains (d.digits * 10 ^ d.exponent.toNat) (10 ^ (-d.exponent).toNat)

/-- The value lies between the ends, at neither of them. -/
structure Interval.Proper (i : Interval) : Prop where
  low_lt : i.low < i.value
  lt_high : i.value < i.high
  den_pos : 0 < i.den

namespace Interval

variable {i : Interval}

theorem contains_mul (num d : Nat) {k : Nat} (hk : 0 < k) : i.contains (num * k) (d * k) = i.contains num d := by
  have hswap : num * k * i.den = num * i.den * k := Nat.mul_right_comm num k i.den
  simp only [contains, hswap, ← Nat.mul_assoc, Nat.mul_le_mul_right_iff hk, Nat.mul_lt_mul_right hk]

theorem contains_of_lt {num d : Nat} (hlow : i.low * d < num * i.den) (hhigh : num * i.den < i.high * d) :
    i.contains num d := by
  unfold contains
  split
  · simp [Nat.le_of_lt hlow, Nat.le_of_lt hhigh]
  · simp [hlow, hhigh]

/-- Where the grid's neighbours of the value stand: `d` steps below it, and one step more above. -/
def neighbours (i : Interval) (p t : Nat) : Option Nat :=
  let d := i.value * p / (i.den * t)
  let r := i.value * p % (i.den * t)
  if r == 0 then some d
  else match i.contains (d * t) p, i.contains ((d + 1) * t) p with
    | true, true => some (if i.den * t ≤ 2 * r then d + 1 else d)
    | true, false => some d
    | false, true => some (d + 1)
    | false, false => none

theorem onGrid_eq (i : Interval) (k : Int) : i.onGrid k = i.neighbours (10 ^ (-k).toNat) (10 ^ k.toNat) := by
  have hgrid : i.onGrid k = i.neighbours (if k < 0 then 10 ^ (-k).toNat else 1) (if k < 0 then 1 else 10 ^ k.toNat) :=
    rfl
  rw [hgrid]
  split
  · have hzero : k.toNat = 0 := by omega
    rw [hzero, Nat.pow_zero]
  · have hzero : (-k).toNat = 0 := by omega
    rw [hzero, Nat.pow_zero]

/-- A point that is found on a grid reads back. -/
theorem contains_of_neighbours (hi : i.Proper) {p t : Nat} (hp : 0 < p) {d : Nat} (h : i.neighbours p t = some d) :
    i.contains (d * t) p := by
  simp only [neighbours] at h
  split at h
  · next hr =>
    cases h
    -- the value itself is on the grid
    have hvalue : i.value * p / (i.den * t) * t * i.den = i.value * p :=
      calc i.value * p / (i.den * t) * t * i.den
        _ = i.den * t * (i.value * p / (i.den * t)) := by ring
        _ = i.value * p := Nat.mul_div_cancel' (Nat.dvd_of_mod_eq_zero (beq_iff_eq.1 hr))
    refine contains_of_lt ?_ ?_
    · rw [hvalue]
      exact Nat.mul_lt_mul_of_pos_right hi.low_lt hp
    · rw [hvalue]
      exact Nat.mul_lt_mul_of_pos_right hi.lt_high hp
  · split at h
    · next hbelow habove =>
      cases h
      split
      · exact habove
      · exact hbelow
    · next hbelow _ =>
      cases h
      exact hbelow
    · next _ habove =>
      cases h
      exact habove
    · cases h

/-- A grid that is finer than the interval is wide has a point in it. -/
theorem isSome_neighbours (hi : i.Proper) {p t : Nat} (hp : 0 < p) (ht : 0 < t)
    (hfine : i.den * t + i.low * p < i.high * p) : (i.neighbours p t).isSome := by
  have hstep : 0 < i.den * t := Nat.mul_pos hi.den_pos ht
  simp only [neighbours]
  split
  · rfl
  · next hr =>
    have hdiv := Nat.div_add_mod (i.value * p) (i.den * t)
    have hmod := Nat.mod_lt (i.value * p) hstep
    set d := i.value * p / (i.den * t)
    set r := i.value * p % (i.den * t)
    have hlow : i.low * p < i.value * p := Nat.mul_lt_mul_of_pos_right hi.low_lt hp
    have hhigh : i.value * p < i.high * p := Nat.mul_lt_mul_of_pos_right hi.lt_high hp
    have hbelow : d * t * i.den + r = i.value * p := by
      rw [← hdiv]
      ring
    have habove : (d + 1) * t * i.den = d * t * i.den + i.den * t := by ring
    -- if the point below is too low, the one above is not too high
    by_cases hinside : i.low * p < d * t * i.den
    · have hcontains : i.contains (d * t) p := contains_of_lt hinside (by omega)
      rw [hcontains]
      split <;> simp_all
    · have hcontains : i.contains ((d + 1) * t) p := contains_of_lt (by omega) (by omega)
      rw [hcontains]
      split <;> simp_all

theorem holds_of_onGrid (hi : i.Proper) {k : Int} {d : Nat} (h : i.onGrid k = some d) : i.Holds ⟨d, k⟩ := by
  rw [onGrid_eq] at h
  exact contains_of_neighbours hi (by positivity) h

/-- The search ends with a point that reads back, if a grid that it tries has one. -/
theorem holds_search (hi : i.Proper) {fuel : Nat} {k : Int} {j : Nat} (hj : j ≤ fuel)
    (h : (i.onGrid (k - j)).isSome) : i.Holds (i.search fuel k) := by
  induction fuel generalizing k j with
  | zero =>
    obtain rfl : j = 0 := Nat.le_zero.1 hj
    obtain ⟨d, hd⟩ := Option.isSome_iff_exists.1 h
    rw [Nat.cast_zero, sub_zero] at hd
    rw [search, hd]
    exact holds_of_onGrid hi hd
  | succ fuel ih =>
    rw [search]
    split
    · next hd => exact holds_of_onGrid hi hd
    · next hnone =>
      cases j with
      | zero =>
        rw [Nat.cast_zero, sub_zero, hnone] at h
        cases h
      | succ j =>
        have hstep : k - (j + 1 : Nat) = k - 1 - j := by push_cast; ring
        rw [hstep] at h
        exact ih (Nat.le_of_succ_le_succ hj) h

/-- Zeros at the end do not matter. -/
theorem Holds.stripZeros {d : Decimal} (h : i.Holds d) (fuel : Nat) : i.Holds (d.stripZeros fuel) := by
  induction fuel generalizing d with
  | zero => exact h
  | succ fuel ih =>
    rw [Decimal.stripZeros]
    split
    · next hzero =>
      simp only [Bool.and_eq_true, beq_iff_eq] at hzero
      obtain ⟨q, hq⟩ := Nat.dvd_of_mod_eq_zero hzero.2
      have hdiv : d.digits / 10 = q := by omega
      refine ih ?_
      unfold Holds at h ⊢
      rw [hdiv]
      rw [hq] at h
      by_cases hexponent : d.exponent < 0
      · have hnum : d.exponent.toNat = 0 := by omega
        have hnum' : (d.exponent + 1).toNat = 0 := by omega
        have hden : (-d.exponent).toNat = (-(d.exponent + 1)).toNat + 1 := by omega
        rw [hnum, hden, pow_zero, Nat.mul_one, Nat.mul_comm, Nat.pow_succ, contains_mul q _ (by decide)] at h
        rwa [hnum', pow_zero, Nat.mul_one]
      · have hnum : (d.exponent + 1).toNat = d.exponent.toNat + 1 := by omega
        have hden : (-d.exponent).toNat = 0 := by omega
        have hden' : (-(d.exponent + 1)).toNat = 0 := by omega
        rw [hden, Nat.mul_comm 10 q, Nat.mul_assoc, Nat.mul_comm 10, ← Nat.pow_succ] at h
        rwa [hnum, hden']
    · exact h

end Interval

/-! ## The first grid -/

theorem ten_pow_toNat (k : Int) : (10 : ℚ) ^ k.toNat = 10 ^ k * 10 ^ (-k).toNat := by
  rcases Int.le_total 0 k with hk | hk
  · obtain ⟨n, rfl⟩ := Int.eq_ofNat_of_zero_le hk
    simp
  · obtain ⟨n, hn⟩ := Int.eq_ofNat_of_zero_le (Int.neg_nonneg.2 hk)
    obtain rfl : k = -n := by omega
    have hpow : (10 : ℚ) ^ n ≠ 0 := by positivity
    simp [hpow]

theorem two_pow_le_of_bitLength {n : Nat} (hn : 0 < n) : (2 : ℚ) ^ ((bitLength n : Int) - 1) ≤ n := by
  have hlength : bitLength n = n.log2 + 1 := if_neg (by simpa using hn.ne')
  have hpow : 2 ^ n.log2 ≤ n := Nat.log2_self_le hn.ne'
  rw [hlength, Nat.cast_add, Nat.cast_one, add_sub_cancel_right, zpow_natCast]
  exact_mod_cast hpow

theorem lt_two_pow_bitLength {n : Nat} (hn : 0 < n) : (n : ℚ) < 2 ^ (bitLength n : Int) := by
  have hlength : bitLength n = n.log2 + 1 := if_neg (by simpa using hn.ne')
  have hpow : n < 2 ^ (n.log2 + 1) := Nat.lt_log2_self
  rw [hlength, zpow_natCast]
  exact_mod_cast hpow

/-- Among the exponents of floats, `30103 / 100000` is near enough to the logarithm of two. -/
theorem ten_zpow_le_two_zpow {g b : Int} (hg : 100000 * g ≤ 30103 * b) (hb : b ≤ 5000) (hb' : -5000 ≤ b) :
    (10 : ℚ) ^ (g - 1) ≤ 2 ^ (b - 1) := by
  rcases Int.lt_or_le 0 g with hpos | hneg
  · -- `10 ^ 59` is just below `2 ^ 196`
    obtain ⟨n, hn⟩ := Int.eq_ofNat_of_zero_le (show 0 ≤ g - 1 by omega)
    have hpow : ((10 : ℚ) ^ (g - 1)) ^ 59 ≤ (2 ^ (b - 1)) ^ 59 :=
      calc ((10 : ℚ) ^ (g - 1)) ^ 59
        _ = ((10 : ℚ) ^ 59) ^ n := by rw [hn, zpow_natCast, pow_right_comm]
        _ ≤ ((2 : ℚ) ^ 196) ^ n := by gcongr; norm_num
        _ = 2 ^ (196 * (g - 1)) := by rw [hn, ← pow_mul, ← zpow_natCast]; push_cast; ring_nf
        _ ≤ 2 ^ (59 * (b - 1)) := zpow_le_zpow_right₀ (by norm_num) (by omega)
        _ = (2 ^ (b - 1)) ^ 59 := by rw [← zpow_natCast, ← zpow_mul]; ring_nf
    exact le_of_pow_le_pow_left₀ (by decide) (by positivity) hpow
  · -- `10 ^ 28` is just above `2 ^ 93`
    obtain ⟨n, hn⟩ := Int.eq_ofNat_of_zero_le (show 0 ≤ 1 - g by omega)
    obtain rfl : g = 1 - n := by omega
    have hpow : ((10 : ℚ) ^ (1 - n - 1 : Int)) ^ 28 ≤ (2 ^ (b - 1)) ^ 28 :=
      calc ((10 : ℚ) ^ (1 - n - 1 : Int)) ^ 28
        _ = (((10 : ℚ) ^ 28) ^ n)⁻¹ := by
          rw [← zpow_natCast, ← zpow_mul, ← zpow_natCast, ← zpow_natCast, ← zpow_mul, ← zpow_neg]
          ring_nf
        _ ≤ (((2 : ℚ) ^ 93) ^ n)⁻¹ := inv_anti₀ (by positivity) (by gcongr; norm_num)
        _ = 2 ^ (-93 * (n : Int)) := by
          rw [← zpow_natCast, ← zpow_natCast, ← zpow_mul, ← zpow_neg]
          ring_nf
        _ ≤ 2 ^ (28 * (b - 1)) := zpow_le_zpow_right₀ (by norm_num) (by omega)
        _ = (2 ^ (b - 1)) ^ 28 := by rw [← zpow_natCast, ← zpow_mul]; ring_nf
    exact le_of_pow_le_pow_left₀ (by decide) (by positivity) hpow

/-- The power of ten is above the quotient. -/
def isAbove (num den : Nat) (k : Int) : Bool :=
  if k < 0 then num * Nat.pow 10 (-k).toNat < den else num < den * Nat.pow 10 k.toNat

theorem isAbove_iff (num den : Nat) (k : Int) : isAbove num den k ↔ (num : ℚ) < den * 10 ^ k := by
  rcases Int.lt_or_le k 0 with hk | hk
  · obtain ⟨n, hn⟩ := Int.eq_ofNat_of_zero_le (show 0 ≤ -k by omega)
    obtain rfl : k = -n := by omega
    have hpow : (0 : ℚ) < 10 ^ n := by positivity
    simp only [isAbove, hk, if_true, neg_neg, Int.toNat_natCast, decide_eq_true_eq, zpow_neg, zpow_natCast,
      ← div_eq_mul_inv, lt_div_iff₀ hpow]
    exact_mod_cast Iff.rfl
  · obtain ⟨n, rfl⟩ := Int.eq_ofNat_of_zero_le hk
    simp only [isAbove, hk.not_gt, if_false, Int.toNat_natCast, decide_eq_true_eq, zpow_natCast]
    exact_mod_cast Iff.rfl

/-- The power of ten below the one that the search starts with is no greater than the value. -/
theorem le_decimalExponent {num den : Nat} (hnum : 0 < num) (hden : 0 < den)
    (hlength : bitLength num ≤ 2500) (hlength' : bitLength den ≤ 2500) :
    (den : ℚ) * 10 ^ (decimalExponent num den - 1) ≤ num := by
  set b : Int := (bitLength num : Int) - bitLength den with hb
  set guess : Int := b * 30103 / 100000 with hguess
  have hexponent : decimalExponent num den =
      if isAbove num den (guess + 1 - 1) then guess + 1 - 1
      else if isAbove num den (guess + 1) then guess + 1 else guess + 1 + 1 := rfl
  have hnot : ∀ {k : Int}, ¬isAbove num den k → (den : ℚ) * 10 ^ k ≤ num :=
    fun h => not_lt.1 fun hlt => h ((isAbove_iff num den _).2 hlt)
  rw [hexponent]
  split
  · calc (den : ℚ) * 10 ^ (guess + 1 - 1 - 1)
      _ = den * 10 ^ (guess - 1) := by rw [add_sub_cancel_right]
      _ ≤ 2 ^ (bitLength den : Int) * 2 ^ (b - 1) := by
        gcongr
        · exact (lt_two_pow_bitLength hden).le
        · exact ten_zpow_le_two_zpow (by omega) (by omega) (by omega)
      _ = 2 ^ ((bitLength num : Int) - 1) := by
        rw [← zpow_add₀ (by norm_num), hb]
        ring_nf
      _ ≤ num := two_pow_le_of_bitLength hnum
  · next hbelow =>
    split
    · exact hnot hbelow
    · next habove =>
      rw [add_sub_cancel_right]
      exact hnot habove

/-! ## Floats -/

/-- The parts of a float that is not zero: its mantissa has 53 binary digits, and it is the least of them if the next
lower float is nearer than the next higher one. -/
structure IsFloat (mantissa : Nat) (exponent : Int) (tight : Bool) : Prop where
  pos : 0 < mantissa
  lt : mantissa < 2 ^ 53
  tight_eq : tight → mantissa = 2 ^ 52
  le_exponent : -1074 ≤ exponent
  exponent_le : exponent ≤ 971

theorem isFloat_of_parts {x : Float} {negative : Bool} {m : Nat} {e : Int} {tight : Bool}
    (h : partsOf x = .finite negative m e tight) (hm : 0 < m) : IsFloat m e tight := by
  simp only [partsOf, Parts.ofBits, Nat.pow_eq] at h
  generalize x.toBits.toNat = n at h
  have hfraction : n % 2 ^ 52 < 2 ^ 52 := Nat.mod_lt _ (by positivity)
  have hbiased : n / 2 ^ 52 % 2048 < 2048 := Nat.mod_lt _ (by decide)
  split at h
  · split at h <;> cases h
  · split at h
    · simp only [Parts.finite.injEq] at h
      obtain ⟨-, rfl, rfl, rfl⟩ := h
      exact ⟨hm, by omega, by simp, by decide, by decide⟩
    · next hmax hzero =>
      simp only [Parts.finite.injEq] at h
      obtain ⟨-, rfl, rfl, rfl⟩ := h
      simp only [beq_iff_eq] at hmax hzero
      have htight : (n % 2 ^ 52 == 0 && n / 2 ^ 52 % 2048 != 1) = true → 2 ^ 52 + n % 2 ^ 52 = 2 ^ 52 := by
        intro ht
        simp only [Bool.and_eq_true, beq_iff_eq] at ht
        rw [ht.1, Nat.add_zero]
      refine ⟨hm, by omega, htight, ?_, ?_⟩ <;> simp only [Int.ofNat_eq_natCast] <;> omega

theorem bitLength_le {n k : Nat} (h : n < 2 ^ k) : bitLength n ≤ k := by
  unfold bitLength
  split
  · exact Nat.zero_le k
  · next hn => exact (Nat.log2_lt (by simpa using hn)).2 h

section

variable {m : Nat} {e : Int} {tight : Bool}

/-- The interval of a float in powers of two. -/
theorem exists_ofParts (h : IsFloat m e tight) : ∃ a b : Nat, a ≤ 969 ∧ b ≤ 1076 ∧
    Interval.ofParts m e tight =
      { low := (4 * m - if tight then 1 else 2) * 2 ^ a, value := 4 * m * 2 ^ a, high := (4 * m + 2) * 2 ^ a
        den := 2 ^ b, closed := m % 2 == 0 } := by
  have hlow := h.le_exponent
  have hhigh := h.exponent_le
  rcases Int.lt_or_le e 2 with he | he
  · exact ⟨0, (2 - e).toNat, by omega, by omega, by simp [Interval.ofParts, he]⟩
  · exact ⟨(e - 2).toNat, 0, by omega, by omega, by simp [Interval.ofParts, he.not_gt]⟩

theorem IsFloat.proper (h : IsFloat m e tight) : (Interval.ofParts m e tight).Proper := by
  obtain ⟨a, b, -, -, heq⟩ := exists_ofParts h
  have hm := h.pos
  rw [heq]
  refine ⟨Nat.mul_lt_mul_of_pos_right ?_ (by positivity), Nat.mul_lt_mul_of_pos_right (by omega) (by positivity),
    by positivity⟩
  split <;> omega

/-- Seventeen digits are always enough: the grid is then finer than the interval is wide. -/
theorem isSome_onGrid (h : IsFloat m e tight) :
    ((Interval.ofParts m e tight).onGrid
      (decimalExponent (Interval.ofParts m e tight).value (Interval.ofParts m e tight).den - (17 : Nat))).isSome := by
  have hproper := h.proper
  obtain ⟨a, b, ha, hb, heq⟩ := exists_ofParts h
  rw [heq] at hproper ⊢
  have hm := h.pos
  have hvalue : bitLength (4 * m * 2 ^ a) ≤ 2500 := by
    have hlt : 4 * m * 2 ^ a < 2 ^ (55 + a) := by
      rw [Nat.pow_add]
      exact Nat.mul_lt_mul_of_pos_right (by have := h.lt; omega) (by positivity)
    exact (bitLength_le hlt).trans (by omega)
  have hden : bitLength (2 ^ b) ≤ 2500 :=
    (bitLength_le (Nat.pow_lt_pow_right (by decide) (Nat.lt_succ_self b))).trans (by omega)
  have hexponent := le_decimalExponent (by positivity) (by positivity) hvalue hden
  set k : Int := decimalExponent (4 * m * 2 ^ a) (2 ^ b) - (17 : Nat) with hk
  obtain ⟨width, hwidth, hfine⟩ : ∃ width, (4 * m - if tight then 1 else 2) + width = 4 * m + 2 ∧
      4 * m < width * 10 ^ 16 := by
    have hlt := h.lt
    have htight := h.tight_eq
    cases tight with
    | true => exact ⟨3, by simp only [if_true]; omega, by have := htight rfl; omega⟩
    | false => exact ⟨4, by simp only [Bool.false_eq_true, if_false]; omega, by omega⟩
  rw [Interval.onGrid_eq]
  refine Interval.isSome_neighbours hproper (by positivity) (by positivity) ?_
  have hscale : (2 : ℚ) ^ b * 10 ^ k < width * 2 ^ a := by
    have hshift : (10 : ℚ) ^ (decimalExponent (4 * m * 2 ^ a) (2 ^ b) - 1) = 10 ^ k * 10 ^ 16 := by
      rw [← zpow_natCast (10 : ℚ) 16, ← zpow_add₀ (by norm_num), hk]
      ring_nf
    have hfine : 4 * (m : ℚ) < width * 10 ^ 16 := by exact_mod_cast hfine
    refine lt_of_mul_lt_mul_right ?_ (show (0 : ℚ) ≤ 10 ^ 16 by positivity)
    calc (2 : ℚ) ^ b * 10 ^ k * 10 ^ 16
      _ ≤ 4 * m * 2 ^ a := by
        rw [hshift] at hexponent
        push_cast at hexponent
        rwa [mul_assoc]
      _ < width * 10 ^ 16 * 2 ^ a := by gcongr
      _ = width * 2 ^ a * 10 ^ 16 := by ring
  have hgrid : 2 ^ b * 10 ^ k.toNat < width * 2 ^ a * 10 ^ (-k).toNat := by
    have hrational : (2 : ℚ) ^ b * 10 ^ k.toNat < width * 2 ^ a * 10 ^ (-k).toNat := by
      rw [ten_pow_toNat k, ← mul_assoc]
      gcongr
    exact_mod_cast hrational
  calc 2 ^ b * 10 ^ k.toNat + (4 * m - if tight then 1 else 2) * 2 ^ a * 10 ^ (-k).toNat
    _ < width * 2 ^ a * 10 ^ (-k).toNat + (4 * m - if tight then 1 else 2) * 2 ^ a * 10 ^ (-k).toNat := by omega
    _ = ((4 * m - if tight then 1 else 2) + width) * 2 ^ a * 10 ^ (-k).toNat := by ring
    _ = (4 * m + 2) * 2 ^ a * 10 ^ (-k).toNat := by rw [hwidth]

/-- The search for the shortest decimal finds one that reads back. -/
theorem holds_shortest (h : IsFloat m e tight) : (Interval.ofParts m e tight).Holds (shortest m e tight) := by
  have hzero : (m == 0) = false := by simpa using h.pos.ne'
  have hsearch := Interval.holds_search h.proper (Nat.le_refl 17) (isSome_onGrid h)
  rw [shortest, hzero]
  exact hsearch.stripZeros 20

end

/-! ## Numerals -/

section

open Text (isDigit decimalValue natText)

theorem decimalValue_eq (start : Nat) (chars : List Char) :
    decimalValue start chars = Nat.ofDigitChars 10 chars start := by
  simp [decimalValue, Nat.ofDigitChars_eq_foldl, Nat.mul_comm]

theorem decimalValue_append (start : Nat) (s t : List Char) :
    decimalValue start (s ++ t) = decimalValue (decimalValue start s) t :=
  List.foldl_append

theorem decimalValue_natText (n : Nat) : decimalValue 0 (natText n) = n := by
  rw [decimalValue_eq]
  exact Nat.ofDigitChars_ten_toDigits

theorem isDigit_of_mem_natText {n : Nat} {c : Char} (h : c ∈ natText n) : isDigit c := by
  have hdigit := Nat.isDigit_of_mem_toDigits (by decide) (by decide) h
  simpa [Char.isDigit, isDigit, Char.le_def] using hdigit

/-- A numeral with a point, as it is read. -/
theorem readDecimal_point {whole fraction : List Char} (hwhole : ∀ c ∈ whole, isDigit c)
    (hfraction : ∀ c ∈ fraction, isDigit c) (hne : whole ≠ []) :
    readDecimal (whole ++ '.' :: fraction) = some (decimalValue 0 (whole ++ fraction), -(fraction.length : Int)) := by
  have htake : (whole ++ '.' :: fraction).takeWhile isDigit = whole := by
    rw [List.takeWhile_append_of_pos hwhole, List.takeWhile_cons_of_neg (by decide), List.append_nil]
  have hdrop : (whole ++ '.' :: fraction).dropWhile isDigit = '.' :: fraction := by
    rw [List.dropWhile_append_of_pos hwhole, List.dropWhile_cons_of_neg (by decide)]
  have htake' : fraction.takeWhile isDigit = fraction := by
    have happend : (fraction ++ []).takeWhile isDigit = fraction ++ [].takeWhile isDigit :=
      List.takeWhile_append_of_pos hfraction
    simpa using happend
  have hdrop' : fraction.dropWhile isDigit = [] := by
    have happend : (fraction ++ []).dropWhile isDigit = [].dropWhile isDigit := List.dropWhile_append_of_pos hfraction
    simpa using happend
  simp [readDecimal, htake, hdrop, htake', hdrop', hne, readExponent, decimalValue_append]

/-- A decimal with a fraction is written with a point, and reads as that decimal. -/
theorem Decimal.exists_positional {d : Decimal} (h : d.exponent < 0) : ∃ whole fraction,
    d.positional = whole ++ '.' :: fraction ∧ (∀ c ∈ whole, isDigit c) ∧ (∀ c ∈ fraction, isDigit c) ∧
      fraction ≠ [] ∧ readDecimal d.positional = some (d.digits, d.exponent) := by
  have hdigits : ∀ c ∈ natText d.digits, isDigit c := fun _ => isDigit_of_mem_natText
  obtain ⟨places, hplaces⟩ := Int.eq_ofNat_of_zero_le (show 0 ≤ -d.exponent by omega)
  have hexponent : d.exponent = -(places : Int) := by omega
  have hnonneg : ¬0 ≤ d.exponent := by omega
  suffices ∃ whole fraction, d.positional = whole ++ '.' :: fraction ∧ (∀ c ∈ whole, isDigit c) ∧
      (∀ c ∈ fraction, isDigit c) ∧ whole ≠ [] ∧ fraction.length = places ∧
      decimalValue 0 (whole ++ fraction) = d.digits by
    obtain ⟨whole, fraction, hd, hwhole, hfraction, hne, hlength, hvalue⟩ := this
    have hfraction' : fraction ≠ [] := List.ne_nil_of_length_pos (by omega)
    refine ⟨whole, fraction, hd, hwhole, hfraction, hfraction', ?_⟩
    rw [hd, readDecimal_point hwhole hfraction hne, hvalue, hlength, hexponent]
  by_cases hlong : places < (natText d.digits).length
  · refine ⟨(natText d.digits).take ((natText d.digits).length - places),
      (natText d.digits).drop ((natText d.digits).length - places), ?_, ?_, ?_, ?_, ?_, ?_⟩
    · simp [Decimal.positional, hnonneg, hplaces, hlong]
    · exact fun c hc => hdigits c (List.mem_of_mem_take hc)
    · exact fun c hc => hdigits c (List.mem_of_mem_drop hc)
    · exact List.ne_nil_of_length_pos (by rw [List.length_take]; omega)
    · rw [List.length_drop]
      omega
    · rw [List.take_append_drop, decimalValue_natText]
  · refine ⟨['0'], List.replicate (places - (natText d.digits).length) '0' ++ natText d.digits, ?_,
      List.forall_mem_singleton.2 rfl, ?_, by simp, ?_, ?_⟩
    · simp [Decimal.positional, hnonneg, hplaces, hlong]
    · intro c hc
      rcases List.mem_append.1 hc with hc | hc
      · rw [List.eq_of_mem_replicate hc]
        decide
      · exact hdigits c hc
    · simp
      omega
    · have hzeros : ∀ n, decimalValue 0 ('0' :: List.replicate n '0') = 0 := by
        intro n
        rw [← List.replicate_succ, decimalValue_eq, Nat.ofDigitChars_replicate_zero, Nat.mul_zero]
      rw [List.singleton_append, ← List.cons_append, decimalValue_append, hzeros, decimalValue_natText]

theorem Decimal.not_mem_positional {d : Decimal} (h : 0 ≤ d.exponent) : '.' ∉ d.positional := by
  have hdigits : '.' ∉ natText d.digits := fun hmem => absurd (isDigit_of_mem_natText hmem) (by decide)
  simp [Decimal.positional, h, hdigits]

/-- A float with a fraction is written as a decimal that reads back. -/
theorem exists_floatChars {x : Float} (hfinite : isFinite x) (hpoint : '.' ∈ floatChars x) :
    ∃ negative mantissa exponent tight, ∃ d : Decimal, partsOf x = .finite negative mantissa exponent tight ∧
      floatChars x = (if negative then ['-'] else []) ++ d.positional ∧ d.exponent < 0 ∧
      (Interval.ofParts mantissa exponent tight).Holds d := by
  cases hparts : partsOf x with
  | nan => simp [isFinite, hparts] at hfinite
  | infinite negative => simp [isFinite, hparts] at hfinite
  | finite negative m e tight =>
    have hchars : floatChars x = (if negative then ['-'] else []) ++
        (if m == 0 then ⟨0, 0⟩ else shortest m e tight : Decimal).positional := by simp [floatChars, hparts]
    have hmem : '.' ∈ (if m == 0 then ⟨0, 0⟩ else shortest m e tight : Decimal).positional := by
      rw [hchars, List.mem_append] at hpoint
      refine hpoint.resolve_left ?_
      cases negative <;> decide
    have hm : 0 < m := by
      refine Nat.pos_of_ne_zero fun hzero => ?_
      subst hzero
      exact Decimal.not_mem_positional (d := ⟨0, 0⟩) (Int.le_refl 0) hmem
    have hnonzero : (m == 0) = false := by simpa using hm.ne'
    rw [hnonzero] at hchars hmem
    have hexponent : (shortest m e tight).exponent < 0 :=
      Int.not_le.1 fun hle => Decimal.not_mem_positional hle hmem
    exact ⟨negative, m, e, tight, _, rfl, hchars, hexponent, holds_shortest (isFloat_of_parts hparts hm)⟩

end

end SchemaMigration.Number
