import DeskCalculator.Elementary
import DeskCalculator.Proofs.Number.Classes

/-!
# Results that do not overflow

The result of an operation is a mantissa with an exponent, which is rounded to at most 53 bits.
Rounding can make the exponent larger than the bits call for by one and no more. So a result of at
most 1023 bits before the point is finite. Square roots have about half the bits of their operand,
and from degrees to radians the exponent gets smaller, so neither of them overflows.

## Main results

* `isFinite_repacked_roundWithAccuracy`: what is rounded and has not too many bits is finite.
* `isFinite_sqrt`, `isFinite_sqrt_eq_false_iff`: square roots are finite, if they are numbers, but
  for that of infinity.
* `isFinite_radians`, `isInf_radians`: radians are finite where the degrees are.
-/

namespace DeskCalculator

open Float.Model Float.Model.UnpackedFloat

variable {v w : Float} {m n : Nat} {e : Int}

/-! ### Numbers of bits -/

theorem log2_le_of_le_add_one (h : m ≤ n + 1) : m.log2 ≤ n.log2 + 1 := by
  rcases Nat.eq_zero_or_pos m with rfl | hm
  · exact Nat.zero_le _
  · have hn : n < 2 ^ (n.log2 + 1) := Nat.lt_log2_self
    have hlt : m < 2 ^ (n.log2 + 2) := by rw [pow_succ]; omega
    have hlog := (Nat.log2_lt (Nat.ne_of_gt hm)).mpr hlt
    omega

theorem log2_mul_le (m n : Nat) : (m * n).log2 ≤ m.log2 + n.log2 + 1 := by
  rcases Nat.eq_zero_or_pos (m * n) with hzero | hpos
  · rw [hzero]
    exact Nat.zero_le _
  · have hm : m < 2 ^ (m.log2 + 1) := Nat.lt_log2_self
    have hn : n < 2 ^ (n.log2 + 1) := Nat.lt_log2_self
    have hlt : m * n < 2 ^ (m.log2 + 1 + (n.log2 + 1)) := by
      rw [pow_add]
      exact Nat.mul_lt_mul'' hm hn
    have hlog := (Nat.log2_lt (Nat.ne_of_gt hpos)).mpr hlt
    omega

theorem log2_div_two_pow_add_le {k : Nat} (h : m / 2 ^ k ≠ 0) :
    (m / 2 ^ k).log2 + k ≤ m.log2 := by
  have hm : m ≠ 0 := by rintro rfl; exact h (Nat.zero_div _)
  rw [Nat.le_log2 hm, pow_add]
  exact Nat.mul_le_of_le_div _ _ _ (Nat.log2_self_le h)

theorem two_mul_log2_le (h : n * n ≤ m) : 2 * n.log2 ≤ m.log2 := by
  rcases Nat.eq_zero_or_pos n with rfl | hn
  · exact Nat.zero_le _
  · have hm : m ≠ 0 := by rintro rfl; exact absurd h (Nat.not_le.mpr (Nat.mul_pos hn hn))
    have hle : 2 ^ n.log2 ≤ n := Nat.log2_self_le (Nat.ne_of_gt hn)
    rw [Nat.le_log2 hm, two_mul, pow_add]
    exact (Nat.mul_le_mul hle hle).trans h

/-! ### Rounding -/

theorem mantissa_shiftRight (em : ExtendedMantissa) (k : Nat) :
    (em >>> k).mantissa = em.mantissa / 2 ^ k := by
  change (k.repeat ExtendedMantissa.shiftRightOne em).mantissa = _
  induction k with
  | zero => rw [pow_zero, Nat.div_one]; rfl
  | succ k ih =>
    rw [pow_succ, ← Nat.div_div_eq_div_mul, ← ih]
    rfl

theorem mantissa_ofMantissaAndAccuracy (m : Nat) (acc : Accuracy) :
    (ExtendedMantissa.ofMantissaAndAccuracy m acc).mantissa = m := by
  unfold ExtendedMantissa.ofMantissaAndAccuracy
  split <;> rfl

theorem roundedMantissa_le (em : ExtendedMantissa) : em.roundedMantissa ≤ em.mantissa + 1 := by
  unfold ExtendedMantissa.roundedMantissa Accuracy.roundToNearestEven
  split <;> omega

/-- Some bits are dropped, so that 53 are left or the exponent is the smallest one at least. -/
theorem exists_shiftToTargetExponent (m : Nat) (e : Int) (acc : Accuracy) : ∃ k : Nat,
    (shiftToTargetExponent .binary64 m e acc).1.mantissa = m / 2 ^ k ∧
    (shiftToTargetExponent .binary64 m e acc).2 = e + k ∧
    e + k = max e (max (totalExponent m e - 53) (-1074)) := by
  have htarget (t : Int) : Format.targetExponent .binary64 t = max (t - 53) (-1074) := rfl
  refine ⟨_, ?_, rfl, ?_⟩
  · rw [shiftToTargetExponent, shiftToExponent, mantissa_shiftRight, mantissa_ofMantissaAndAccuracy]
  · rw [htarget]
    omega

/-- What is rounded is finite, if its exponent and the number of its bits are not too large. -/
theorem isFinite_repacked_roundWithAccuracy (s : UnpackedFloat.Sign) (acc : Accuracy)
    (he : e ≤ 971) (htotal : totalExponent m e ≤ 1023) :
    (repacked (roundWithAccuracy .binary64 s m e acc)).isFinite := by
  obtain ⟨k, hmantissa, hexponent, hk⟩ := exists_shiftToTargetExponent m e acc
  have hrounded := roundedMantissa_le (shiftToTargetExponent .binary64 m e acc).1
  rw [hmantissa] at hrounded
  have hlog := log2_le_of_le_add_one hrounded
  -- The bits are counted a second time because rounding up may have added one.
  obtain ⟨k', -, hexponent', hk'⟩ := exists_shiftToTargetExponent
    (shiftToTargetExponent .binary64 m e acc).1.roundedMantissa (e + k) .exact
  rw [totalExponent] at htotal hk hk'
  rw [← hexponent] at hexponent'
  have hfinal : e + k + k' ≤ 971 := by
    by_cases hzero : m / 2 ^ k = 0
    · have hone : (m / 2 ^ k).log2 = 0 := by rw [hzero]; rfl
      omega
    · have hdropped := log2_div_two_pow_add_le hzero
      omega
  rw [roundWithAccuracy]
  dsimp only
  split
  · rw [repacked_zero]
    rfl
  · exact isFinite_repacked (by rw [hexponent', hexponent]; exact hfinal)

/-! ### The bits of doubles -/

/-- The bits of a double bound its mantissa and its exponent, whether it is normal or not. -/
theorem bounds_of_unpack {sign s : UnpackedFloat.Sign} {exponent : BitVec 11} {fraction : BitVec 52}
    {hm : 0 < m} (h : UnpackedFloat.unpack .binary64 (packComponents .binary64 sign exponent
      fraction) = .finite s m e hm) : m < 2 ^ 53 ∧ e ≤ 971 := by
  have hbias : Format.exponentBias .binary64 = 1023 := rfl
  simp only [UnpackedFloat.unpack, unpackMantissa_packComponents, unpackExponent_packComponents,
    hbias] at h
  by_cases hmax : exponent = -1#11
  · rw [if_pos hmax] at h
    split at h <;> cases h
  · rw [if_neg hmax] at h
    by_cases hzero : exponent = 0#11
    · rw [if_pos hzero] at h
      by_cases hfraction : fraction = 0#52
      · rw [dif_pos hfraction] at h
        cases h
      · rw [dif_neg hfraction, UnpackedFloat.finite.injEq] at h
        obtain ⟨-, rfl, rfl⟩ := h
        refine ⟨Nat.lt_trans fraction.isLt (by decide), ?_⟩
        rw [hzero]
        decide
    · rw [if_neg hzero, UnpackedFloat.finite.injEq] at h
      obtain ⟨-, rfl, rfl⟩ := h
      have hlt := exponent.isLt
      have hlargest : exponent.toNat ≠ 2047 := fun h ↦ hmax (BitVec.eq_of_toNat_eq h)
      refine ⟨(1#1 ++ fraction).isLt, ?_⟩
      omega

/-- A finite double has at most 53 bits, and an exponent of 971 at most. -/
theorem bounds_of_unpacked {s : UnpackedFloat.Sign} {hm : 0 < m}
    (h : unpacked v = .finite s m e hm) : m.log2 ≤ 52 ∧ e ≤ 971 := by
  have hfinite : v.isFinite := by rw [isFinite_eq, h]; rfl
  obtain ⟨sign, exponent, fraction, he, rfl⟩ := exists_double hfinite
  rw [unpacked, unpack_double he] at h
  obtain ⟨hlt, hle⟩ := bounds_of_unpack h
  exact ⟨Nat.le_of_lt_succ ((Nat.log2_lt (Nat.ne_of_gt hm)).mpr hlt), hle⟩

/-! ### Square roots -/

/-- The root before it is rounded has half the bits. -/
theorem sqrtCore_bounds (hm : m.log2 ≤ 52) (he : e ≤ 971) :
    (sqrtCore .binary64 m e).2.1 ≤ 971 ∧
      totalExponent (sqrtCore .binary64 m e).1 (sqrtCore .binary64 m e).2.1 ≤ 1023 := by
  obtain ⟨t, k, ht, hk, hcore⟩ : ∃ (t : Int) (k : Nat), t ≤ e / 2 ∧ k = e - 2 * t ∧
      sqrtCore .binary64 m e = (Nat.sqrt (m <<< k), t, (sqrtCore .binary64 m e).2.2) := by
    have hle := Int.min_le_left (e / 2)
      (Format.targetExponent .binary64 ((totalExponent m e + 1) / 2))
    exact ⟨_, _, hle, Int.toNat_of_nonneg (by omega), rfl⟩
  have hroot := two_mul_log2_le (Nat.sqrt_le (m <<< k))
  have hshift := log2_mul_le m (2 ^ k)
  rw [Nat.log2_two_pow, ← Nat.shiftLeft_eq] at hshift
  rw [hcore, totalExponent]
  exact ⟨by dsimp only; omega, by dsimp only; omega⟩

/-- The square root of a finite double is finite, if it is a number. -/
theorem isFinite_sqrt (h : v.isFinite) (hsign : ¬ v < 0) : v.sqrt.isFinite := by
  rw [isFinite_eq] at h
  rw [lt_zero_iff] at hsign
  rw [isFinite_eq, unpacked_sqrt]
  cases hv : unpacked v with
  | notANumber | infinity => rw [hv] at h; cases h
  | zero s =>
    rw [UnpackedFloat.sqrt, repacked_zero]
    rfl
  | finite s m e hm =>
    cases s with
    | negative => exact absurd (by rw [hv]; rfl) hsign
    | positive =>
      obtain ⟨hlog, he⟩ := bounds_of_unpacked hv
      obtain ⟨hexponent, htotal⟩ := sqrtCore_bounds hlog he
      exact isFinite_repacked_roundWithAccuracy _ _ hexponent htotal

/-- The square root of a number that is not below zero is finite unless the number is infinite. -/
theorem isFinite_sqrt_eq_false_iff (h : v.isNaN = false) :
    (¬ v < 0 ∧ v.sqrt.isFinite = false) ↔ v.isInf = true ∧ isNegative v = false := by
  rw [isInf_and_not_isNegative_iff]
  have hroot (hfinite : v.isFinite) : ¬ (¬ v < 0 ∧ v.sqrt.isFinite = false) :=
    fun ⟨hsign, hroot⟩ ↦ Bool.false_ne_true (hroot.symm.trans (isFinite_sqrt hfinite hsign))
  rw [isNaN_eq] at h
  rw [isFinite_eq] at hroot
  cases hv : unpacked v with
  | notANumber => rw [hv] at h; cases h
  | zero | finite => exact iff_of_false (hroot (by rw [hv]; rfl)) nofun
  | infinity s =>
    rw [lt_zero_iff, isFinite_eq, unpacked_sqrt, hv]
    cases s with
    | positive => exact iff_of_true (by decide) rfl
    | negative => exact iff_of_false (by decide) nofun

/-! ### Degrees and radians -/

theorem unpacked_radiansPerDegree :
    ∃ hm, unpacked radiansPerDegree = .finite .positive 0x11DF46A2529D39 (-58) hm := ⟨_, rfl⟩

/-- Finite degrees are finite radians. -/
theorem isFinite_radians (h : v.isFinite) : (radians v).isFinite := by
  obtain ⟨_, hfactor⟩ := unpacked_radiansPerDegree
  rw [isFinite_eq] at h
  rw [radians, isFinite_eq, unpacked_mul, hfactor]
  cases hv : unpacked v with
  | notANumber | infinity => rw [hv] at h; cases h
  | zero s =>
    rw [UnpackedFloat.mul, repacked_zero]
    rfl
  | finite s m e hm =>
    obtain ⟨hlog, he⟩ := bounds_of_unpacked hv
    have hproduct := log2_mul_le m 0x11DF46A2529D39
    have hlog' : Nat.log2 0x11DF46A2529D39 = 52 := by decide
    refine isFinite_repacked_roundWithAccuracy _ _ (by omega) ?_
    rw [totalExponent]
    omega

/-- Infinite degrees are infinite radians. -/
theorem isInf_radians (h : v.isInf) : (radians v).isInf := by
  obtain ⟨_, hfactor⟩ := unpacked_radiansPerDegree
  rw [isInf_eq] at h
  rw [radians, isInf_eq, unpacked_mul, hfactor]
  cases hv : unpacked v with
  | notANumber | zero | finite => rw [hv] at h; cases h
  | infinity s =>
    rw [UnpackedFloat.mul, repacked_infinity]
    rfl

end DeskCalculator
