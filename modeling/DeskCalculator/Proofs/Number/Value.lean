import DeskCalculator.Decimal.Shortest
import DeskCalculator.Proofs.Number.Rounding
import Mathlib.Algebra.Order.Field.Rat
import Mathlib.Tactic.NormNum
import Mathlib.Tactic.Ring

/-!
# The value of a decimal

A decimal stands for a rational number, and the double that it denotes is settled by this number:
decimals of one value have one magnitude, however their zeros are shared out between the coefficient
and the exponent. The cases that are settled without computing a power of ten agree with rounding.
The expansion of a finite magnitude has the value of the magnitude, so it reads back, and so does
the shortest decimal.

## Main definitions

* `Decimal.value`: the rational number that a decimal stands for.

## Main results

* `Decimal.magnitude_eq_nearest`: the magnitude of a decimal is a rounded quotient in every case.
* `Decimal.magnitude_eq_of_value_eq`: decimals of one value have one magnitude.
* `Decimal.magnitude_shortest_eq`: the shortest decimal of a finite magnitude reads back.
-/

namespace DeskCalculator.Decimal

/-- The number that a decimal stands for. -/
def value (d : Decimal) : ℚ := d.coefficient * 10 ^ d.exponent

theorem ten_pow_eq (n : Nat) : Nat.pow 10 n = 10 ^ n := rfl

theorem ten_pow_le {k n : Nat} (h : k ≤ n) : 10 ^ k ≤ 10 ^ n := Nat.pow_le_pow_right (by decide) h

theorem numerator_eq (d : Decimal) : d.numerator = d.coefficient * 10 ^ d.exponent.toNat := by
  rw [numerator, ten_pow_eq]

theorem denominator_eq (d : Decimal) : d.denominator = 10 ^ (-d.exponent).toNat := by
  rw [denominator, ten_pow_eq]

/-- A power of ten is a quotient of natural powers, one of which is one. -/
theorem ten_zpow_eq (e : Int) : (10 : ℚ) ^ e = 10 ^ e.toNat / 10 ^ (-e).toNat := by
  rcases Int.le_total 0 e with h | h
  · obtain ⟨n, rfl⟩ := Int.eq_ofNat_of_zero_le h
    have hneg : (-(n : Int)).toNat = 0 := by omega
    rw [hneg, pow_zero, div_one, Int.toNat_natCast, zpow_natCast]
  · obtain ⟨n, hn⟩ := Int.eq_ofNat_of_zero_le (Int.neg_nonneg_of_nonpos h)
    obtain rfl : e = -(n : Int) := by omega
    have hzero : (-(n : Int)).toNat = 0 := by omega
    rw [hzero, pow_zero, one_div, zpow_neg, neg_neg, Int.toNat_natCast, zpow_natCast]

/-- The value of a decimal as a quotient of natural numbers. -/
theorem value_eq_div (d : Decimal) : d.value = d.numerator / d.denominator := by
  rw [value, numerator_eq, denominator_eq, ten_zpow_eq, Nat.cast_mul, Nat.cast_pow, Nat.cast_pow,
    mul_div_assoc]
  norm_num

/-- Trailing zeros may be moved into the exponent. -/
theorem value_reduced (d : Decimal) : d.reduced.value = d.value := by
  induction d using reduced.induct with
  | case1 d hzero =>
    rw [reduced_of_coefficient_eq_zero hzero, value, value, hzero]
    norm_num
  | case2 d hne hmod ih =>
    have hcoefficient : d.coefficient = d.coefficient / 10 * 10 := by omega
    rw [reduced, dif_neg hne, if_pos hmod, ih, value, value, zpow_add_one₀ (by norm_num)]
    conv_rhs => rw [hcoefficient]
    push_cast
    ring
  | case3 d hne hmod => rw [reduced, dif_neg hne, if_neg hmod]

/-- Decimals that are settled by their exponent are rounded like the others. -/
theorem magnitude_eq_nearest (d : Decimal) :
    d.magnitude = Magnitude.nearest d.numerator d.denominator := by
  have hden := d.denominator_pos
  rw [magnitude]
  split
  · next hzero =>
    refine (Magnitude.nearest_eq_zero hden ?_).symm
    rw [numerator, hzero, Nat.zero_mul, Nat.zero_mul]
    exact Nat.zero_le _
  · next hne =>
    split
    · next hlarge =>
      refine (Magnitude.nearest_eq_infinite hden ?_).symm
      have hneg : (-d.exponent).toNat = 0 := by omega
      have hpow : 10 ^ 309 ≤ 10 ^ d.exponent.toNat := ten_pow_le (by omega)
      have hbound : 2 ^ 1024 ≤ 10 ^ 309 := by decide +kernel
      rw [numerator_eq, denominator_eq, hneg, pow_zero, Nat.mul_one]
      exact Nat.le_trans hbound (Nat.le_trans hpow (Nat.le_mul_of_pos_left _ (by omega)))
    · split
      · next hsmall =>
        refine (Magnitude.nearest_eq_zero hden ?_).symm
        have hpos : d.exponent.toNat = 0 := by omega
        have hlt : d.coefficient < 2 ^ (d.coefficient.log2 + 1) := Nat.lt_log2_self
        have hexponent : 325 + d.coefficient.log2 ≤ (-d.exponent).toNat := by omega
        have hbound : 2 ^ 1 * 2 ^ 1075 ≤ 10 ^ 325 := by decide +kernel
        rw [numerator_eq, denominator_eq, hpos, pow_zero, Nat.mul_one]
        calc d.coefficient * 2 ^ 1075
          _ ≤ 2 ^ (d.coefficient.log2 + 1) * 2 ^ 1075 := Nat.mul_le_mul_right _ (Nat.le_of_lt hlt)
          _ = 2 ^ 1 * 2 ^ 1075 * 2 ^ d.coefficient.log2 := by
            rw [pow_add, Nat.mul_assoc, Nat.mul_comm]
          _ ≤ 10 ^ 325 * 10 ^ d.coefficient.log2 :=
            Nat.mul_le_mul hbound (Nat.pow_le_pow_left (by decide) _)
          _ = 10 ^ (325 + d.coefficient.log2) := (pow_add _ _ _).symm
          _ ≤ 10 ^ (-d.exponent).toNat := ten_pow_le hexponent
      · rfl

/-- Decimals of one value have one magnitude. -/
theorem magnitude_eq_of_value_eq {d d' : Decimal} (h : d.value = d'.value) :
    d.magnitude = d'.magnitude := by
  have hden : (d.denominator : ℚ) ≠ 0 := Nat.cast_ne_zero.mpr d.denominator_pos.ne'
  have hden' : (d'.denominator : ℚ) ≠ 0 := Nat.cast_ne_zero.mpr d'.denominator_pos.ne'
  rw [value_eq_div, value_eq_div, div_eq_div_iff hden hden'] at h
  rw [magnitude_eq_nearest, magnitude_eq_nearest]
  exact Magnitude.nearest_congr d.denominator_pos d'.denominator_pos (by exact_mod_cast h)

/-- Zeros behind the digits of a natural number are the zeros of a power of ten. -/
theorem value_mul_ten_pow (c n : Nat) :
    value ⟨c * 10 ^ n, 0⟩ = value ⟨c, n⟩ := by
  rw [value, value, zpow_zero, mul_one, zpow_natCast, Nat.cast_mul, Nat.cast_pow]
  norm_num

/-- A quotient by a power of two has as many decimal places as the power has factors. -/
theorem value_mul_five_pow (c n : Nat) :
    value ⟨c * Nat.pow 5 n, -n⟩ = c / (2 ^ n : Nat) := by
  have hten : (10 : ℚ) = 5 * 2 := by norm_num
  have hfive : (5 : ℚ) ^ n ≠ 0 := pow_ne_zero n (by norm_num)
  have hcast : ((Nat.pow 5 n : Nat) : ℚ) = 5 ^ n := Nat.cast_pow 5 n
  have htwo : ((2 ^ n : Nat) : ℚ) = 2 ^ n := Nat.cast_pow 2 n
  rw [value, Nat.cast_mul, hcast, htwo, zpow_neg, zpow_natCast, hten, mul_pow, mul_inv, mul_assoc,
    mul_inv_cancel_left₀ hfive, div_eq_mul_inv]

/-- The expansion of a magnitude has the value of the magnitude. -/
theorem value_expansion (m : Nat) :
    (expansion m).value = Magnitude.units m / Magnitude.unitsInOne := by
  have hplaces : (-1074 : Int) = -((1074 : Nat) : Int) := rfl
  rw [expansion, value_reduced, Magnitude.unitsInOne_eq, hplaces]
  -- The powers are not to be computed.
  generalize 1074 = places
  exact value_mul_five_pow (Magnitude.units m) places

/-- A magnitude without a fractional part has the value of its whole part. -/
theorem value_wholePart {m : Nat} (h : Magnitude.units m % Magnitude.unitsInOne = 0) :
    value ⟨Magnitude.wholePart m, 0⟩ = (expansion m).value := by
  have hunits : (Magnitude.unitsInOne : ℚ) ≠ 0 :=
    Nat.cast_ne_zero.mpr Magnitude.unitsInOne_pos.ne'
  have hproduct := Nat.div_mul_cancel (Nat.dvd_of_mod_eq_zero h)
  rw [value_expansion, eq_div_iff hunits, value, zpow_zero, mul_one, Magnitude.wholePart]
  exact_mod_cast hproduct

/-- The expansion of a finite magnitude reads back. -/
theorem magnitude_expansion {m : Nat} (h : m < Magnitude.infinite) :
    (expansion m).magnitude = m := by
  have hden := (expansion m).denominator_pos
  have hvalue := (expansion m).value_eq_div.symm.trans (value_expansion m)
  have hne : ((expansion m).denominator : ℚ) ≠ 0 := Nat.cast_ne_zero.mpr hden.ne'
  have hunits : (Magnitude.unitsInOne : ℚ) ≠ 0 :=
    Nat.cast_ne_zero.mpr Magnitude.unitsInOne_pos.ne'
  rw [div_eq_div_iff hne hunits] at hvalue
  rw [magnitude_eq_nearest, Magnitude.nearest_congr hden Magnitude.unitsInOne_pos
    (by exact_mod_cast hvalue), Magnitude.nearest_units h]

/-- The shortest decimal of a finite magnitude reads back. -/
theorem magnitude_shortest_eq {m : Nat} (h : m < Magnitude.infinite) :
    (shortest m).magnitude = m := by
  rcases magnitude_shortest m with hm | hm
  · exact hm
  · rw [hm, magnitude_expansion h]

end DeskCalculator.Decimal
