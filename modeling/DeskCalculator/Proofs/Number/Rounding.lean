import DeskCalculator.Magnitude
import Mathlib.Algebra.Order.Ring.Nat

/-!
# Rounding a quotient

The magnitude nearest to a quotient depends on the quotient alone, and not on the numerator and the
denominator by which it is given. The quotient that a finite magnitude stands for is rounded to this
magnitude. From `2^1024` on, every quotient is rounded to infinity, and up to `2^-1075` to zero.

## Main results

* `Magnitude.nearest_congr`: equal quotients are rounded alike.
* `Magnitude.nearest_units`: the value of a finite magnitude is rounded to the magnitude.
* `Magnitude.nearest_eq_infinite`, `Magnitude.nearest_eq_zero`: the two ends of the range.
-/

namespace DeskCalculator.Magnitude

theorem two_pow_eq (n : Nat) : Nat.pow 2 n = 2 ^ n := rfl

theorem unitsInOne_eq : unitsInOne = 2 ^ 1074 := by decide +kernel

theorem unitsInOne_pos : 0 < unitsInOne := by
  rw [unitsInOne_eq]
  exact pow_pos Nat.two_pos 1074

theorem units_eq (m : Nat) : units m = significand m * 2 ^ doublings m := by
  rw [units, two_pow_eq]

theorem compare_mul_right {k : Nat} (hk : 0 < k) (a b : Nat) :
    compare (a * k) (b * k) = compare a b := by
  rcases Nat.lt_trichotomy a b with h | rfl | h
  · rw [Nat.compare_eq_lt.mpr h, Nat.compare_eq_lt.mpr (Nat.mul_lt_mul_of_pos_right h hk)]
  · rw [Nat.compare_eq_eq.mpr rfl, Nat.compare_eq_eq.mpr rfl]
  · rw [Nat.compare_eq_gt.mpr h, Nat.compare_eq_gt.mpr (Nat.mul_lt_mul_of_pos_right h hk)]

/-- Only the quotient of the remainder and the divisor decides how a quotient is rounded. -/
theorem halfEven_mul_right {k : Nat} (hk : 0 < k) (q r d : Nat) :
    halfEven q (r * k) (d * k) = halfEven q r d := by
  rw [halfEven, ← Nat.mul_assoc, compare_mul_right hk, halfEven]

/-- The two parts of a fraction may be multiplied by one factor. -/
theorem nearest_mul_right {k : Nat} (hk : 0 < k) (num den : Nat) :
    nearest (num * k) (den * k) = nearest num den := by
  have hscaled : num * k * unitsInOne = num * unitsInOne * k := Nat.mul_right_comm _ _ _
  have hstep (d : Nat) : den * k * Nat.pow 2 d = den * Nat.pow 2 d * k := Nat.mul_right_comm _ _ _
  simp only [nearest, hscaled, hstep, Nat.mul_div_mul_right _ _ hk, Nat.mul_mod_mul_right,
    halfEven_mul_right hk]

/-- Equal quotients are rounded alike. -/
theorem nearest_congr {num den num' den' : Nat} (hden : 0 < den) (hden' : 0 < den')
    (h : num * den' = num' * den) : nearest num den = nearest num' den' := by
  rw [← nearest_mul_right hden', h, Nat.mul_comm den, nearest_mul_right hden]

/-- A magnitude as its significand and the number of times it is doubled. -/
theorem doublings_mul_add_significand (m : Nat) :
    doublings m * 2 ^ 52 + significand m = m := by
  rw [significand, doublings]
  omega

/-- The significand has its leading bit at the place of `2^52`, unless it is not doubled. -/
theorem doublings_eq_zero_or (m : Nat) : doublings m = 0 ∨ 2 ^ 52 ≤ significand m := by
  by_cases h : m < 0x10000000000000
  · exact .inl (doublings_eq_zero (by omega))
  · exact .inr (le_significand (by omega))

/-- The bits below the upper 53 of the value of a magnitude are those by which it is doubled. -/
theorem log2_units (m : Nat) : (units m).log2 - 52 = doublings m := by
  have hlt := significand_lt m
  rw [units_eq]
  rcases doublings_eq_zero_or m with hzero | hle
  · rw [hzero, Nat.pow_zero, Nat.mul_one]
    by_cases h : significand m = 0
    · rw [h, Nat.log2_zero]
    · have hlog : (significand m).log2 < 53 := (Nat.log2_lt h).mpr hlt
      omega
  · have hpos : 0 < 2 ^ doublings m := Nat.two_pow_pos _
    have hne : significand m * 2 ^ doublings m ≠ 0 := Nat.mul_ne_zero (by omega) (by omega)
    have hlower : 2 ^ (52 + doublings m) ≤ significand m * 2 ^ doublings m := by
      rw [Nat.pow_add]
      exact Nat.mul_le_mul_right _ hle
    have hupper : significand m * 2 ^ doublings m < 2 ^ (52 + doublings m + 1) := by
      rw [Nat.add_right_comm, Nat.pow_add]
      exact Nat.mul_lt_mul_of_pos_right hlt hpos
    rw [(Nat.log2_eq_iff hne).mpr ⟨hlower, hupper⟩]
    omega

/-- The value of a finite magnitude is rounded to the magnitude. -/
theorem nearest_units {m : Nat} (h : m < infinite) : nearest (units m) unitsInOne = m := by
  have hquotient : units m * unitsInOne / unitsInOne = units m :=
    Nat.mul_div_cancel _ unitsInOne_pos
  have hscaled : units m * unitsInOne =
      significand m * (unitsInOne * Nat.pow 2 (doublings m)) := by
    rw [units, Nat.mul_assoc, Nat.mul_comm (Nat.pow _ _)]
  have hstep : 0 < unitsInOne * Nat.pow 2 (doublings m) :=
    Nat.mul_pos unitsInOne_pos (Nat.pow_pos Nat.two_pos)
  have hm := doublings_mul_add_significand m
  simp only [nearest, hquotient, log2_units]
  rw [hscaled, Nat.mul_div_cancel _ hstep, Nat.mul_mod_left, halfEven_exact _ hstep]
  omega

theorem ne_zero_of_two_pow_le {k n : Nat} (h : 2 ^ k ≤ n) : n ≠ 0 :=
  Nat.ne_of_gt (Nat.lt_of_lt_of_le (pow_pos Nat.two_pos k) h)

theorem le_log2_of_two_pow_le {k n : Nat} (h : 2 ^ k ≤ n) : k ≤ n.log2 :=
  (Nat.le_log2 (ne_zero_of_two_pow_le h)).mpr h

/-- Quotients from `2^1024` on are infinite. -/
theorem nearest_eq_infinite {num den : Nat} (hden : 0 < den) (h : 2 ^ 1024 * den ≤ num) :
    nearest num den = infinite := by
  have hle : 2 ^ 2098 ≤ num * unitsInOne / den := by
    rw [Nat.le_div_iff_mul_le hden, unitsInOne_eq, (by decide : 2098 = 1024 + 1074), pow_add,
      Nat.mul_right_comm]
    exact Nat.mul_le_mul_right _ h
  have hne := ne_zero_of_two_pow_le hle
  have hlog : 2098 ≤ (num * unitsInOne / den).log2 := le_log2_of_two_pow_le hle
  -- What is left when the lower bits are dropped still has the leading bit at its place.
  have hleading : 2 ^ 52 ≤
      num * unitsInOne / (den * 2 ^ ((num * unitsInOne / den).log2 - 52)) := by
    rw [← Nat.div_div_eq_div_mul, Nat.le_div_iff_mul_le (Nat.two_pow_pos _), ← Nat.pow_add,
      Nat.add_sub_cancel' (Nat.le_trans (by decide) hlog)]
    exact Nat.log2_self_le hne
  have hrounded := halfEven_le
    (num * unitsInOne / (den * 2 ^ ((num * unitsInOne / den).log2 - 52)))
    (num * unitsInOne % (den * 2 ^ ((num * unitsInOne / den).log2 - 52)))
    (den * 2 ^ ((num * unitsInOne / den).log2 - 52))
  simp only [nearest, two_pow_eq]
  rw [Nat.min_eq_left]
  rw [infinite]
  omega

/-- Quotients up to `2^-1075` are zero. -/
theorem nearest_eq_zero {num den : Nat} (hden : 0 < den) (h : num * 2 ^ 1075 ≤ den) :
    nearest num den = 0 := by
  have htwice : 2 * (num * unitsInOne) ≤ den := by
    rw [(by decide : 1075 = 1074 + 1), pow_succ] at h
    rwa [unitsInOne_eq, Nat.mul_comm 2, Nat.mul_assoc]
  have hlt : num * unitsInOne < den := by omega
  have hrounded : halfEven 0 (num * unitsInOne) den = 0 := by
    rw [halfEven]
    split
    · rfl
    · rfl
    · next hgt => exact absurd (Nat.compare_eq_gt.mp hgt) (Nat.not_lt.mpr htwice)
  simp only [nearest, Nat.div_eq_of_lt hlt, Nat.log2_zero, two_pow_eq, Nat.zero_sub, Nat.pow_zero,
    Nat.mul_one, Nat.mod_eq_of_lt hlt, hrounded]
  exact Nat.min_eq_right (Nat.zero_le _)

end DeskCalculator.Magnitude
