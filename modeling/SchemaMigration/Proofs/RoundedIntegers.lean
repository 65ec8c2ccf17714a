import SchemaMigration.Proofs.ShortestDecimal
import Mathlib

/-!
# Integers written as floats

The float nearest to an integer of more than 63 bits is a multiple of 2048 (`partsOf_ofQuotient`), and so are its
neighbours. The numbers that round to it lie more than a thousand apart, so the shortest of their decimals ends in three
zeros (`three_le_exponent_shortest`). An integer that does not is never what the float is written as
(`thousand_dvd_of_floatChars`).
-/

namespace SchemaMigration.Number

/-! ## The nearest float -/

section

open Float.Model Float.Model.UnpackedFloat

/-- The exponent among the bits of a float. -/
theorem toNat_unpackExponent (b : UInt64) :
    (@unpackExponent .binary64 b.toBitVec).toNat = b.toNat / 2 ^ 52 % 2048 := by
  simp [unpackExponent_def, BitVec.extractLsb', Nat.shiftRight_eq_div_pow]

/-- The bits of a float are kept, unless they stand for none of the numbers. -/
theorem toBits_ofBits {b : UInt64} (h : b.toNat / 2 ^ 52 % 2048 ≠ 2047) : (Float.ofBits b).toBits = b := by
  have hnumber : @isNaNBits .binary64 b.toBitVec = false := by
    refine decide_eq_false fun hmax => h ?_
    rw [← toNat_unpackExponent, hmax.1]
    rfl
  have hpack := @pack_unpack .binary64 b.toBitVec (by decide)
  rw [hnumber] at hpack
  exact congrArg UInt64.ofBitVec hpack

end

/-- The float with the given biased exponent and fraction. -/
theorem partsOf_ofBits {biased fraction : Nat} (negative : Bool) (hzero : 0 < biased) (hmax : biased < 2047)
    (hfraction : fraction < 2 ^ 52) :
    partsOf (Float.ofBits (UInt64.ofNat ((if negative then Nat.pow 2 63 else 0) + (biased * 2 ^ 52 + fraction)))) =
      .finite negative (2 ^ 52 + fraction) (biased - 1075) (fraction == 0 && biased != 1) := by
  have hsign : (if negative then Nat.pow 2 63 else 0) = negative.toNat * 2 ^ 63 := by cases negative <;> rfl
  have hone := negative.toNat_le
  rw [hsign]
  set n := negative.toNat * 2 ^ 63 + (biased * 2 ^ 52 + fraction) with hn
  have hbits : (UInt64.ofNat n).toNat = n := UInt64.toNat_ofNat_of_lt' (show n < 2 ^ 64 by omega)
  have hnegative : (n / 2 ^ 63 == 1) = negative := by
    have hdiv : n / 2 ^ 63 = negative.toNat := by omega
    rw [hdiv]
    cases negative <;> rfl
  have hbiased : n / 2 ^ 52 % 2048 = biased := by omega
  have hrest : n % 2 ^ 52 = fraction := by omega
  rw [partsOf, toBits_ofBits (by rw [hbits, hbiased]; omega), Parts.ofBits, hbits]
  simp only [Nat.pow_eq, hbiased, hrest, hnegative]
  rw [if_neg (by simp; omega), if_neg (by simp; omega)]
  rfl

theorem two_pow_le_div {n j k : Nat} (h : 2 ^ (j + k) ≤ n) : 2 ^ j ≤ n / 2 ^ k := by
  rwa [Nat.le_div_iff_mul_le (by positivity), ← Nat.pow_add]

theorem div_lt_two_pow {n j k : Nat} (h : n < 2 ^ (j + k)) : n / 2 ^ k < 2 ^ j := by
  rwa [Nat.div_lt_iff_lt_mul (by positivity), ← Nat.pow_add]

theorem scaled_natCast (n k : Nat) : scaled n 1 (k : Int) = (n, 2 ^ k) := by
  rw [scaled, if_neg (Int.natCast_nonneg k).not_gt, Int.toNat_natCast, Nat.one_mul]
  rfl

/-- An integer leaves 53 of its binary digits before the point if all others are cut off. -/
theorem binaryExponent_of_log2 {n k : Nat} (hn : n ≠ 0) (hlog : n.log2 = 53 + k) : binaryExponent 53 n 1 = k + 1 := by
  obtain ⟨hlow, -⟩ := (Nat.log2_eq_iff hn).1 hlog
  have hlength : bitLength n = 54 + k := by
    rw [bitLength, if_neg (by simpa using hn), hlog]
    omega
  have hguess : (bitLength n : Int) - (bitLength 1 : Int) - (53 : Nat) = k := by
    rw [hlength, show bitLength 1 = 1 from rfl]
    omega
  have hwhole := two_pow_le_div hlow
  simp only [binaryExponent, hguess, scaled_natCast, Nat.pow_eq]
  rw [if_neg (by omega), if_pos hwhole]

theorem roundHalfEven_eq_or (num den : Nat) :
    roundHalfEven num den = num / den ∨ roundHalfEven num den = num / den + 1 := by
  simp only [roundHalfEven]
  split
  · exact .inl rfl
  · split
    · exact .inr rfl
    · split
      · exact .inl rfl
      · exact .inr rfl

/-- The bits of the float nearest to an integer that 63 bits do not hold. -/
theorem exists_nearestBits {n : Nat} (h : 2 ^ 63 ≤ n) : ∃ biased fraction, 1086 ≤ biased ∧ fraction < 2 ^ 52 ∧
    nearestBits n 1 = min (biased * 2 ^ 52 + fraction) (2047 * 2 ^ 52) := by
  have hn : n ≠ 0 := by omega
  have hlog : 63 ≤ n.log2 := (Nat.le_log2 hn).2 h
  obtain ⟨k, hk⟩ : ∃ k, n.log2 = 53 + k := ⟨n.log2 - 53, by omega⟩
  obtain ⟨hlow, hhigh⟩ := (Nat.log2_eq_iff hn).1 hk
  have hlow' : 2 ^ 52 ≤ n / 2 ^ (k + 1) := two_pow_le_div (by rwa [show 52 + (k + 1) = 53 + k by omega])
  have hhigh' : n / 2 ^ (k + 1) < 2 ^ 53 := div_lt_two_pow (by rwa [show 53 + (k + 1) = 53 + k + 1 by omega])
  have hexponent : max (binaryExponent 53 n 1) (-1074) = (k + 1 : Nat) := by
    rw [binaryExponent_of_log2 hn hk]
    omega
  have hround := roundHalfEven_eq_or n (2 ^ (k + 1))
  have hbits : nearestBits n 1 =
      min ((k + 1 + 1075) * 2 ^ 52 + (roundHalfEven n (2 ^ (k + 1)) - 2 ^ 52)) (2047 * 2 ^ 52) := by
    simp only [nearestBits, hexponent, scaled_natCast, Nat.pow_eq]
    rw [if_neg (by simpa using hn), if_neg (by omega), show ((k + 1 : Nat) + 1075 : Int).toNat = k + 1 + 1075 by omega]
  -- a mantissa that is rounded up to `2 ^ 53` carries into the exponent
  by_cases hcarry : roundHalfEven n (2 ^ (k + 1)) = 2 ^ 53
  · refine ⟨k + 1 + 1076, 0, by omega, by decide, ?_⟩
    have hsum : (k + 1 + 1075) * 2 ^ 52 + (2 ^ 53 - 2 ^ 52) = (k + 1 + 1076) * 2 ^ 52 + 0 := by omega
    rw [hbits, hcarry, hsum]
  · exact ⟨k + 1 + 1075, roundHalfEven n (2 ^ (k + 1)) - 2 ^ 52, by omega, by omega, hbits⟩

theorem partsOf_ofQuotient (negative : Bool) {n : Nat} (h : 2 ^ 63 ≤ n)
    (hfinite : isFinite (ofQuotient negative n 1)) :
    ∃ mantissa exponent tight, partsOf (ofQuotient negative n 1) = .finite negative mantissa exponent tight ∧
      0 < mantissa ∧ 11 ≤ exponent := by
  obtain ⟨biased, fraction, hbiased, hfraction, hbits⟩ := exists_nearestBits h
  rw [ofQuotient, hbits] at hfinite ⊢
  by_cases hmax : biased < 2047
  · rw [Nat.min_eq_left (by omega)]
    exact ⟨_, _, _, partsOf_ofBits negative (by omega) hmax hfraction, by omega, by omega⟩
  · rw [Nat.min_eq_right (by omega)] at hfinite
    cases negative <;> cases hfinite

/-! ## Zeros at the end -/

theorem Interval.le_exponent_search {i : Interval} {k : Int} (hgrid : (i.onGrid k).isSome) {fuel : Nat} {start : Int}
    (h : k ≤ start) : k ≤ (i.search fuel start).exponent := by
  induction fuel generalizing start with
  | zero => exact h
  | succ fuel ih =>
    rw [search]
    split
    · exact h
    · next hnone =>
      refine ih ?_
      have hne : k ≠ start := by
        rintro rfl
        rw [hnone] at hgrid
        cases hgrid
      omega

theorem Decimal.le_exponent_stripZeros (d : Decimal) (fuel : Nat) : d.exponent ≤ (d.stripZeros fuel).exponent := by
  induction fuel generalizing d with
  | zero => exact Int.le_refl _
  | succ fuel ih =>
    rw [stripZeros]
    split
    · have hrest := ih ⟨d.digits / 10, d.exponent + 1⟩
      exact (Int.le_add_of_nonneg_right (by decide)).trans hrest
    · exact Int.le_refl _

section

variable {m : Nat} {e : Int} {tight : Bool}

/-- The interval of a float that is an integer, in quarters of its last binary digit. -/
theorem ofParts_of_two_le (he : 2 ≤ e) : Interval.ofParts m e tight =
    { low := (4 * m - if tight then 1 else 2) * 2 ^ (e - 2).toNat, value := 4 * m * 2 ^ (e - 2).toNat
      high := (4 * m + 2) * 2 ^ (e - 2).toNat, den := 1, closed := m % 2 == 0 } := by
  simp [Interval.ofParts, he.not_gt]

/-- The interval is wider than a thousand. -/
theorem isSome_onGrid_three (h : IsFloat m e tight) (he : 11 ≤ e) : ((Interval.ofParts m e tight).onGrid 3).isSome := by
  rw [Interval.onGrid_eq]
  refine Interval.isSome_neighbours h.proper (by decide) (by decide) ?_
  have hm := h.pos
  rw [ofParts_of_two_le (by omega)]
  have hunit : 2 ^ 9 ≤ 2 ^ (e - 2).toNat := Nat.pow_le_pow_right (by decide) (by omega)
  set unit := 2 ^ (e - 2).toNat
  calc 1 * 10 ^ (3 : Int).toNat + (4 * m - if tight then 1 else 2) * unit * 10 ^ (-(3 : Int)).toNat
    _ = 1000 + (4 * m - if tight then 1 else 2) * unit := by simp
    _ < 3 * unit + (4 * m - if tight then 1 else 2) * unit := by omega
    _ = (3 + (4 * m - if tight then 1 else 2)) * unit := by rw [Nat.add_mul]
    _ ≤ (4 * m + 2) * unit := Nat.mul_le_mul_right _ (by split <;> omega)
    _ = (4 * m + 2) * unit * 10 ^ (-(3 : Int)).toNat := by simp

theorem guess_le_decimalExponent (num den : Nat) :
    ((bitLength num : Int) - (bitLength den : Int)) * 30103 / 100000 ≤ decimalExponent num den := by
  simp only [decimalExponent]
  split
  · omega
  · split <;> omega

theorem three_le_decimalExponent (h : IsFloat m e tight) (he : 11 ≤ e) :
    3 ≤ decimalExponent (Interval.ofParts m e tight).value (Interval.ofParts m e tight).den := by
  rw [ofParts_of_two_le (by omega)]
  refine Int.le_trans ?_ (guess_le_decimalExponent _ _)
  dsimp only
  have hunit : 2 ^ 9 ≤ 2 ^ (e - 2).toNat := Nat.pow_le_pow_right (by decide) (by omega)
  have hvalue : 4 * 2 ^ 9 ≤ 4 * m * 2 ^ (e - 2).toNat := Nat.mul_le_mul (Nat.le_mul_of_pos_right 4 h.pos) hunit
  set value := 4 * m * 2 ^ (e - 2).toNat
  have hlength : 12 ≤ bitLength value := by
    have hne : value ≠ 0 := by omega
    rw [bitLength, if_neg (by simpa using hne)]
    exact Nat.succ_le_succ ((Nat.le_log2 hne).2 hvalue)
  rw [show bitLength 1 = 1 from rfl]
  omega

/-- The shortest decimal of a float whose last binary digit counts at least 2048 has three zeros before the point. -/
theorem three_le_exponent_shortest (h : IsFloat m e tight) (he : 11 ≤ e) : 3 ≤ (shortest m e tight).exponent := by
  rw [shortest, if_neg (by simpa using h.pos.ne')]
  exact (Interval.le_exponent_search (isSome_onGrid_three h he) (three_le_decimalExponent h he)).trans
    (Decimal.le_exponent_stripZeros _ _)

end

/-- A float that is a multiple of 2048 is written with three zeros at its end. -/
theorem exists_zeros_floatChars {x : Float} {negative : Bool} {m : Nat} {e : Int} {tight : Bool}
    (h : partsOf x = .finite negative m e tight) (hm : 0 < m) (he : 11 ≤ e) :
    ∃ digits zeros, 3 ≤ zeros ∧
      floatChars x = (if negative then ['-'] else []) ++ (Text.natText digits ++ List.replicate zeros '0') := by
  have hexponent := three_le_exponent_shortest (isFloat_of_parts h hm) he
  have hpositional : (shortest m e tight).positional =
      Text.natText (shortest m e tight).digits ++ List.replicate (shortest m e tight).exponent.toNat '0' :=
    if_pos (by omega)
  have hzero : ¬(m == 0) = true := by simpa using hm.ne'
  refine ⟨(shortest m e tight).digits, (shortest m e tight).exponent.toNat, by omega, ?_⟩
  simp only [floatChars, h, if_neg hzero, hpositional]

theorem decimalValue_zeros (start zeros : Nat) :
    Text.decimalValue start (List.replicate zeros '0') = start * 10 ^ zeros := by
  induction zeros generalizing start with
  | zero => simp [Text.decimalValue]
  | succ zeros ih =>
    rw [List.replicate_succ, Nat.pow_succ', ← Nat.mul_assoc]
    exact ih (start * 10)

/-- An integer that the nearest float is written as, if 63 bits do not hold it, is a multiple of a thousand. -/
theorem thousand_dvd_of_floatChars {n : Nat} (negative : Bool) (h : 2 ^ 63 ≤ n)
    (hfinite : isFinite (ofQuotient negative n 1))
    (hchars : floatChars (ofQuotient negative n 1) = (if negative then ['-'] else []) ++ Text.natText n) :
    1000 ∣ n := by
  obtain ⟨m, e, tight, hparts, hm, he⟩ := partsOf_ofQuotient negative h hfinite
  obtain ⟨digits, zeros, hzeros, hwritten⟩ := exists_zeros_floatChars hparts hm he
  have htext : Text.natText n = Text.natText digits ++ List.replicate zeros '0' :=
    List.append_cancel_left (hchars.symm.trans hwritten)
  have hn : n = digits * 10 ^ zeros := by
    rw [← decimalValue_natText n, htext, decimalValue_append, decimalValue_natText, decimalValue_zeros]
  rw [hn]
  exact (Nat.pow_dvd_pow 10 hzeros).mul_left digits

end SchemaMigration.Number
