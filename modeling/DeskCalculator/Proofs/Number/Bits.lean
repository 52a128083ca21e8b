import DeskCalculator.Readout
import Mathlib

/-!
# Doubles by sign and magnitude

The 64 bits of a double are a sign bit, eleven bits of a biased exponent and 52 bits of a fraction.
Packing undoes unpacking, so a finite double is given by these parts, and negation turns over the
sign bit. Without the sign, the bits are the magnitude of the double.

## Main definitions

* `double`: the double with a sign, a biased exponent and a fraction.

## Main results

* `exists_double`: a finite double has these parts.
* `neg_double`: a negated double has the other sign.
* `Magnitude.ofFloat_lt_infinite`: the magnitude of a finite double is finite.
* `Magnitude.toFloat_ofFloat`, `Magnitude.neg_toFloat_ofFloat`: a finite double is its magnitude
  with its sign.
-/

namespace DeskCalculator

open Float.Model Float.Model.UnpackedFloat

/-! ### The parts of a bit pattern -/

section Parts

variable (s : UnpackedFloat.Sign) (e : BitVec 11) (f : BitVec 52)

/-- The bits of a double, read as a number. -/
theorem toNat_packComponents : (packComponents .binary64 s e f).toNat =
    s.toBitVec.toNat * 2 ^ 63 + e.toNat * 2 ^ 52 + f.toNat := by
  have he := e.isLt
  have hf := f.isLt
  rw [packComponents, BitVec.toNat_append, ← Nat.shiftLeft_add_eq_or_of_lt hf, BitVec.toNat_append,
    ← Nat.shiftLeft_add_eq_or_of_lt he, Nat.shiftLeft_eq, Nat.shiftLeft_eq]
  omega

/-- With the sign turned over, the bits stand for the negation. -/
theorem unpack_packComponents_neg :
    UnpackedFloat.unpack .binary64 (packComponents .binary64 (-s) e f) =
      (UnpackedFloat.unpack .binary64 (packComponents .binary64 s e f)).neg := by
  simp only [UnpackedFloat.unpack, unpackMantissa_packComponents, unpackExponent_packComponents,
    unpackSign_packComponents, Sign.ofBitVec_toBitVec]
  split
  · split <;> rfl
  · split
    · split <;> rfl
    · rfl

variable {s e f}

/-- The bits of a finite double are those of no infinity and not of what is not a number. -/
theorem isFinite_unpack_packComponents :
    (UnpackedFloat.unpack .binary64 (packComponents .binary64 s e f)).isFinite ↔ e ≠ -1#11 := by
  simp only [UnpackedFloat.unpack, unpackMantissa_packComponents, unpackExponent_packComponents]
  split
  · next he => split <;> exact iff_of_false Bool.false_ne_true (not_not.mpr he)
  · next he =>
    split
    · split <;> exact iff_of_true rfl he
    · exact iff_of_true rfl he

/-- Packing undoes unpacking, for the bits of a finite double. -/
theorem pack_unpack_packComponents (he : e ≠ -1#11) :
    UnpackedFloat.pack .binary64
      (UnpackedFloat.unpack .binary64 (packComponents .binary64 s e f)) =
        packComponents .binary64 s e f := by
  have hnumber : ¬ isNaNBits (packComponents .binary64 s e f) = true := by
    rw [isNaNBits, unpackExponent_packComponents, decide_eq_true_iff]
    exact fun h ↦ he h.1
  rw [pack_unpack, if_neg hnumber]

end Parts

/-! ### Doubles -/

/-- The double with a sign, a biased exponent and a fraction. -/
def double (s : UnpackedFloat.Sign) (e : BitVec 11) (f : BitVec 52) : Float :=
  Float.ofBits (UInt64.ofBitVec (packComponents .binary64 s e f))

variable {s : UnpackedFloat.Sign} {e : BitVec 11} {f : BitVec 52}

theorem toBits_double (he : e ≠ -1#11) :
    (double s e f).toBits = UInt64.ofBitVec (packComponents .binary64 s e f) :=
  congrArg UInt64.ofBitVec (pack_unpack_packComponents he)

theorem toNat_toBits_double (he : e ≠ -1#11) : (double s e f).toBits.toNat =
    s.toBitVec.toNat * 2 ^ 63 + e.toNat * 2 ^ 52 + f.toNat := by
  rw [toBits_double he]
  exact toNat_packComponents s e f

theorem unpack_double (he : e ≠ -1#11) : (double s e f).toModel.unpack =
    UnpackedFloat.unpack .binary64 (packComponents .binary64 s e f) :=
  congrArg (UnpackedFloat.unpack .binary64) (pack_unpack_packComponents he)

/-- A finite double has a sign, an exponent below the largest one and a fraction. -/
theorem exists_double {v : Float} (h : v.isFinite) : ∃ s e f, e ≠ -1#11 ∧ v = double s e f := by
  obtain ⟨s, e, f, hbits⟩ : ∃ s e f, packComponents .binary64 s e f = v.toBits.toBitVec :=
    ⟨_, _, _, packComponents_unpackSign_unpackExponent_unpackMantissa _⟩
  have hunpack : v.toModel.unpack =
      UnpackedFloat.unpack .binary64 (packComponents .binary64 s e f) :=
    congrArg (UnpackedFloat.unpack .binary64) hbits.symm
  rw [Float.isFinite, Float.Model.isFinite, hunpack, isFinite_unpack_packComponents] at h
  refine ⟨s, e, f, h, ?_⟩
  rw [double, hbits]
  exact (Float.ofBits_toBits v).symm

/-- A finite double is a number. -/
theorem isNaN_of_isFinite {v : Float} (h : v.isFinite) : v.isNaN = false := by
  rw [Float.isFinite, Float.Model.isFinite] at h
  rw [Float.isNaN, Float.Model.isNaN]
  cases hunpack : v.toModel.unpack with
  | notANumber => rw [hunpack] at h; cases h
  | infinity | zero | finite => rfl

/-- A finite double is not infinite. -/
theorem isInf_of_isFinite {v : Float} (h : v.isFinite) : v.isInf = false := by
  rw [Float.isFinite, Float.Model.isFinite] at h
  rw [Float.isInf, Float.Model.isInf]
  cases hunpack : v.toModel.unpack with
  | infinity => rw [hunpack] at h; cases h
  | notANumber | zero | finite => rfl

theorem isFinite_double (he : e ≠ -1#11) : (double s e f).isFinite := by
  rw [Float.isFinite, Float.Model.isFinite, unpack_double he]
  exact isFinite_unpack_packComponents.mpr he

/-- A negated double has the other sign. -/
theorem neg_double (he : e ≠ -1#11) : -double s e f = double (-s) e f := by
  rw [← Float.toBits_inj, toBits_double he]
  change UInt64.ofBitVec (UnpackedFloat.pack .binary64 (double s e f).toModel.unpack.neg) = _
  rw [unpack_double he, ← unpack_packComponents_neg, pack_unpack_packComponents he]

/-- The sign bit of a double. -/
theorem isNegative_double (he : e ≠ -1#11) :
    isNegative (double s e f) = decide (s.toBitVec = 1#1) := by
  have hlt := e.isLt
  have hf := f.isLt
  rw [isNegative, toNat_toBits_double he, decide_eq_decide]
  cases s with
  | negative => exact iff_of_true (by change _ ≤ 1 * 2 ^ 63 + _ + _; omega) rfl
  | positive =>
    refine iff_of_false ?_ (by decide)
    change ¬ _ ≤ 0 * 2 ^ 63 + _ + _
    omega

namespace Magnitude

theorem ofFloat_double (he : e ≠ -1#11) :
    ofFloat (double s e f) = e.toNat * 2 ^ 52 + f.toNat := by
  have hlt := e.isLt
  have hf := f.isLt
  rw [ofFloat, toNat_toBits_double he]
  omega

theorem toFloat_eq_double : toFloat (e.toNat * 2 ^ 52 + f.toNat) = double .positive e f := by
  have hlt := e.isLt
  have hf := f.isLt
  rw [toFloat, double]
  refine congrArg Float.ofBits (UInt64.toNat_inj.mp ?_)
  rw [UInt64.toNat_ofNat', UInt64.toNat_ofBitVec, toNat_packComponents, Nat.mod_eq_of_lt (by omega)]
  change _ = 0 * 2 ^ 63 + _ + _
  omega

/-- A finite magnitude is that of a double without a sign. -/
theorem exists_toFloat_eq_double {m : Nat} (h : m < infinite) : ∃ (e : BitVec 11) (f : BitVec 52),
    e ≠ -1#11 ∧ e.toNat * 2 ^ 52 + f.toNat = m ∧ toFloat m = double .positive e f := by
  rw [infinite] at h
  have hexponent : (BitVec.ofNat 11 (m / 2 ^ 52)).toNat = m / 2 ^ 52 :=
    Nat.mod_eq_of_lt (by omega)
  have hfraction : (BitVec.ofNat 52 (m % 2 ^ 52)).toNat = m % 2 ^ 52 :=
    Nat.mod_eq_of_lt (by omega)
  have hm : (BitVec.ofNat 11 (m / 2 ^ 52)).toNat * 2 ^ 52 +
      (BitVec.ofNat 52 (m % 2 ^ 52)).toNat = m := by
    rw [hexponent, hfraction]
    omega
  refine ⟨.ofNat 11 (m / 2 ^ 52), .ofNat 52 (m % 2 ^ 52), fun hmax ↦ ?_, hm, ?_⟩
  · have hlargest : m / 2 ^ 52 = 2047 := by rw [← hexponent, hmax]; rfl
    omega
  · rw [← toFloat_eq_double, hm]

/-- The double of a magnitude is a number and has no sign, also if it is infinite. -/
theorem toFloat_isNumber {m : Nat} (h : m ≤ infinite) :
    (toFloat m).isNaN = false ∧ isNegative (toFloat m) = false := by
  rcases Nat.lt_or_eq_of_le h with hlt | rfl
  · obtain ⟨e, f, he, -, hdouble⟩ := exists_toFloat_eq_double hlt
    rw [hdouble]
    exact ⟨isNaN_of_isFinite (isFinite_double he), isNegative_double he⟩
  · exact ⟨by decide +kernel, by decide +kernel⟩

/-- The magnitude of a finite double is finite. -/
theorem ofFloat_lt_infinite {v : Float} (h : v.isFinite) : ofFloat v < infinite := by
  obtain ⟨s, e, f, he, rfl⟩ := exists_double h
  have hlt := e.isLt
  have hf := f.isLt
  have hne : e.toNat ≠ 2047 := fun h ↦ he (BitVec.eq_of_toNat_eq h)
  rw [ofFloat_double he, infinite]
  omega

/-- A finite double without a sign is given by its magnitude. -/
theorem toFloat_ofFloat {v : Float} (h : v.isFinite) (hsign : isNegative v = false) :
    toFloat (ofFloat v) = v := by
  obtain ⟨s, e, f, he, rfl⟩ := exists_double h
  rw [isNegative_double he] at hsign
  cases s with
  | negative => cases hsign
  | positive => rw [ofFloat_double he, toFloat_eq_double]

/-- A finite double with a sign is given by its magnitude, negated. -/
theorem neg_toFloat_ofFloat {v : Float} (h : v.isFinite) (hsign : isNegative v = true) :
    -toFloat (ofFloat v) = v := by
  obtain ⟨s, e, f, he, rfl⟩ := exists_double h
  rw [isNegative_double he] at hsign
  cases s with
  | negative =>
    rw [ofFloat_double he, toFloat_eq_double, neg_double he]
    rfl
  | positive => cases hsign

end Magnitude

end DeskCalculator
