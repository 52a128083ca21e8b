import DeskCalculator.Proofs.Number.Bits
import DeskCalculator.Proofs.Number.Value

/-!
# The exact value of a double

Every finite double is a rational number. Its sign, its significand and the power of two between
them give this number, and the magnitude gives it as well: up to the sign it is a number of units.
The next magnitude is the next number, and one step further by a power of two that only depends on
how often the significand is doubled.

## Main definitions

* `exactValue`: the number that a finite double is.
* `Magnitude.value`: the number that a magnitude stands for.

## Main results

* `exactValue_eq`: the number that a double is, from its sign and its magnitude.
* `Magnitude.units_add_one`: the step to the next magnitude.
* `Magnitude.value_strictMono`: magnitudes are ordered like their values.
-/

namespace DeskCalculator

open Float.Model Float.Model.UnpackedFloat

/-- The number that a finite double is, from its parts. An infinity, and what is not a number,
counts as zero. -/
def exactValue (v : Float) : ℚ :=
  match v.toModel.unpack with
  | .finite sign mantissa exponent _ => sign.apply mantissa * 2 ^ exponent
  | .zero _ | .infinity _ | .notANumber => 0

namespace Magnitude

/-- The number that a magnitude stands for. Infinity counts as `2^1024`, where the next double would
be. -/
def value (m : Nat) : ℚ := units m / unitsInOne

/-- A magnitude from the number of doublings and the significand. The significand may be `2^53`,
which is doubled once more. -/
theorem units_mul_add {d s : Nat} (h : d = 0 ∨ 2 ^ 52 ≤ s) (hs : s ≤ 2 ^ 53) :
    units (d * 2 ^ 52 + s) = s * 2 ^ d := by
  rw [units_eq]
  rcases Nat.lt_or_eq_of_le hs with hlt | rfl
  · have hd : doublings (d * 2 ^ 52 + s) = d := by
      rw [doublings]
      omega
    have hs' : significand (d * 2 ^ 52 + s) = s := by
      rw [significand, hd]
      omega
    rw [hd, hs']
  · have hd : doublings (d * 2 ^ 52 + 2 ^ 53) = d + 1 := by
      rw [doublings]
      omega
    have hs' : significand (d * 2 ^ 52 + 2 ^ 53) = 2 ^ 52 := by
      rw [significand, hd]
      omega
    rw [hd, hs']
    ring

/-- The next magnitude is further by as many units as the significand is doubled. -/
theorem units_add_one (m : Nat) : units (m + 1) = units m + 2 ^ doublings m := by
  have hm := doublings_mul_add_significand m
  have hlt := significand_lt m
  have hor := doublings_eq_zero_or m
  have hnext := units_mul_add (d := doublings m) (s := significand m + 1) (by omega) (by omega)
  rw [← Nat.add_assoc, hm] at hnext
  rw [hnext, units_eq, Nat.add_mul, Nat.one_mul]

theorem units_strictMono : StrictMono units := by
  refine strictMono_nat_of_lt_succ fun m ↦ ?_
  rw [units_add_one]
  exact Nat.lt_add_of_pos_right (Nat.two_pow_pos _)

theorem unitsInOne_cast_pos : (0 : ℚ) < unitsInOne := Nat.cast_pos.mpr unitsInOne_pos

/-- Magnitudes are ordered like their values. -/
theorem value_strictMono : StrictMono value := fun _ _ h ↦
  div_lt_div_of_pos_right (Nat.cast_lt.mpr (units_strictMono h)) unitsInOne_cast_pos

theorem value_zero : value 0 = 0 := by
  rw [value, units_eq_self (by decide), Nat.cast_zero, zero_div]

theorem value_nonneg (m : Nat) : 0 ≤ value m := div_nonneg (Nat.cast_nonneg _) (Nat.cast_nonneg _)

/-- A magnitude from the bits of its exponent, which is not the least one, and of its fraction. -/
theorem value_of_exponent {e f : Nat} (he : e ≠ 0) (hf : f < 2 ^ 52) :
    value (e * 2 ^ 52 + f) = (2 ^ 52 + f) * 2 ^ (e - 1075 : Int) := by
  obtain ⟨k, rfl⟩ := Nat.exists_eq_succ_of_ne_zero he
  have hunits := units_mul_add (d := k) (s := 2 ^ 52 + f) (.inr (by omega)) (by omega)
  have hm : (k + 1) * 2 ^ 52 + f = k * 2 ^ 52 + (2 ^ 52 + f) := by ring
  have hexponent : ((k + 1 : Nat) - 1075 : Int) = k - (1074 : Nat) := by omega
  rw [value, Nat.succ_eq_add_one, hm, hunits, unitsInOne_eq, hexponent, zpow_sub₀ (by norm_num),
    zpow_natCast, zpow_natCast, ← mul_div_assoc, Nat.cast_mul, Nat.cast_add, Nat.cast_pow,
    Nat.cast_pow, Nat.cast_pow, Nat.cast_ofNat]

/-- A magnitude from the bits of its fraction, for the least exponent. -/
theorem value_of_fraction {f : Nat} (hf : f < 2 ^ 52) : value f = f * 2 ^ (-1074 : Int) := by
  have hexponent : (-1074 : Int) = -(1074 : Nat) := rfl
  rw [value, units_eq_self (by omega), unitsInOne_eq, Nat.cast_pow, Nat.cast_ofNat, hexponent,
    zpow_neg, zpow_natCast, div_eq_mul_inv]

end Magnitude

section Double

variable {s : UnpackedFloat.Sign} {e : BitVec 11} {f : BitVec 52}

theorem sign_apply_eq (n : Int) : s.apply n = s.apply 1 * n := by
  cases s
  · exact (neg_one_mul n).symm
  · exact (one_mul n).symm

/-- The number that a double with given parts is. -/
theorem exactValue_double (he : e ≠ -1#11) :
    exactValue (double s e f) = s.apply 1 * Magnitude.value (e.toNat * 2 ^ 52 + f.toNat) := by
  have hf := f.isLt
  rw [exactValue, unpack_double he]
  simp only [UnpackedFloat.unpack, unpackMantissa_packComponents, unpackExponent_packComponents,
    unpackSign_packComponents, Sign.ofBitVec_toBitVec, if_neg he]
  by_cases hzero : e = 0#11
  · subst hzero
    have hmagnitude : (0#11).toNat * 2 ^ 52 + f.toNat = f.toNat := Nat.zero_add _
    rw [if_pos rfl, hmagnitude]
    by_cases hfraction : f = 0#52
    · subst hfraction
      rw [dif_pos rfl]
      exact (mul_eq_zero_of_right _ Magnitude.value_zero).symm
    · rw [dif_neg hfraction, Magnitude.value_of_fraction hf]
      simp only
      rw [sign_apply_eq, Int.cast_mul, mul_assoc]
      rfl
  · have hne : e.toNat ≠ 0 := fun h ↦ hzero (BitVec.eq_of_toNat_eq h)
    have hmantissa : (1#1 ++ f).toNat = 2 ^ 52 + f.toNat := by
      rw [BitVec.toNat_append, ← Nat.shiftLeft_add_eq_or_of_lt hf]
      rfl
    rw [if_neg hzero, Magnitude.value_of_exponent hne hf]
    simp only
    rw [sign_apply_eq, Int.cast_mul, mul_assoc, hmantissa, Int.cast_natCast, Nat.cast_add]
    rfl

end Double

/-- A finite double is the value of its magnitude, with its sign. -/
theorem exactValue_eq {v : Float} (h : v.isFinite) :
    exactValue v = (if isNegative v then -1 else 1) * Magnitude.value (Magnitude.ofFloat v) := by
  obtain ⟨s, e, f, he, rfl⟩ := exists_double h
  rw [exactValue_double he, isNegative_double he, Magnitude.ofFloat_double he]
  cases s <;> rfl

end DeskCalculator
