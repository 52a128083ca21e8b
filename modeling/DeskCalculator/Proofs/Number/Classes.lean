import DeskCalculator.Proofs.Number.Bits

/-!
# Operations on doubles by class

A double is infinite, or zero, or finite and not zero, or it is not a number. Its *unpacked form*
tells which. An operation unpacks its operands, goes by their classes, rounds where it has to, and
packs the result again. A result with too large an exponent becomes infinite when it is packed, but
neither rounding nor packing gives what is not a number. So whether a result is a number follows
from the classes of the operands alone.

## Main definitions

* `unpacked`: the unpacked form of a double.
* `repacked`: the unpacked form of the double that a form is packed into.

## Main results

* `beq_zero_iff`: a double equals zero exactly if its magnitude is zero.
* `isNaN_mul_self`, `isNaN_one_div`: squares and reciprocals of numbers are numbers.
* `isNaN_sqrt_iff`: the square root of a number is a number unless that is below zero.
-/

namespace DeskCalculator

open Float.Model Float.Model.UnpackedFloat

/-- The unpacked form of a double. -/
def unpacked (v : Float) : UnpackedFloat := v.toModel.unpack

/-- The unpacked form of the double that a form is packed into. -/
def repacked (u : UnpackedFloat) : UnpackedFloat :=
  UnpackedFloat.unpack .binary64 (UnpackedFloat.pack .binary64 u)

variable {v : Float} {s : UnpackedFloat.Sign} {m : Nat} {e : Int} {hm : 0 < m}

theorem isNaN_eq (v : Float) : v.isNaN = (unpacked v).isNaN := rfl

theorem isInf_eq (v : Float) : v.isInf = (unpacked v).isInf := rfl

theorem isFinite_eq (v : Float) : v.isFinite = (unpacked v).isFinite := rfl

/-- A double is given by its unpacked form. -/
theorem ofModel_pack_unpacked (v : Float) : Float.ofModel (.pack (unpacked v)) = v :=
  Float.ofBits_toBits v

/-- A number that is not infinite is finite. -/
theorem isFinite_of_isInf_eq_false (h : v.isNaN = false) (hinf : v.isInf = false) :
    v.isFinite = true := by
  rw [isNaN_eq] at h
  rw [isInf_eq] at hinf
  rw [isFinite_eq]
  cases hv : unpacked v with
  | notANumber => rw [hv] at h; cases h
  | infinity => rw [hv] at hinf; cases hinf
  | zero | finite => rfl

/-- An infinite double is not finite. -/
theorem isFinite_eq_false_of_isInf (h : v.isInf = true) : v.isFinite = false := by
  refine Bool.eq_false_iff.mpr fun hfinite ↦ ?_
  rw [isInf_of_isFinite hfinite] at h
  cases h

/-- What is not a number is not finite. -/
theorem isFinite_eq_false_of_isNaN (h : v.isNaN = true) : v.isFinite = false := by
  refine Bool.eq_false_iff.mpr fun hfinite ↦ ?_
  rw [isNaN_of_isFinite hfinite] at h
  cases h

/-! ### Operations on unpacked forms -/

theorem unpacked_mul (v w : Float) :
    unpacked (v * w) = repacked ((unpacked v).mul .binary64 (unpacked w)) := rfl

theorem unpacked_div (v w : Float) :
    unpacked (v / w) = repacked ((unpacked v).div .binary64 (unpacked w)) := rfl

theorem unpacked_sqrt (v : Float) : unpacked v.sqrt = repacked ((unpacked v).sqrt .binary64) := rfl

theorem unpacked_zero : unpacked 0 = .zero .positive := rfl

theorem exists_unpacked_one : ∃ m e hm, unpacked 1 = .finite .positive m e hm := ⟨_, _, _, rfl⟩

theorem lt_zero_iff : v < 0 ↔ (unpacked v).lt (.zero .positive) = true := by
  rw [← unpacked_zero]
  exact decide_eq_true_iff

/-! ### Packing keeps the class -/

theorem repacked_infinity (s : UnpackedFloat.Sign) : repacked (.infinity s) = .infinity s := by
  cases s <;> rfl

theorem repacked_zero (s : UnpackedFloat.Sign) : repacked (.zero s) = .zero s := by
  cases s <;> rfl

/-- A form with too large an exponent becomes infinite. -/
theorem repacked_of_lt (he : 971 < e) : repacked (.finite s m e hm) = .infinity s := by
  have hbias : Format.exponentBias .binary64 = 1023 := rfl
  have hexceeds : 2 ^ 11 ≤ (e + (1023 : Nat) + (52 : Nat)).toNat + 1 := by omega
  rw [repacked, UnpackedFloat.pack]
  simp only [hbias, if_pos hexceeds]
  exact repacked_infinity s

/-- A form whose exponent is not too large stays finite. -/
theorem isFinite_repacked (he : e ≤ 971) : (repacked (.finite s m e hm)).isFinite := by
  have hbias : Format.exponentBias .binary64 = 1023 := rfl
  have hfits : ¬ 2 ^ 11 ≤ (e + (1023 : Nat) + (52 : Nat)).toNat + 1 := by omega
  rw [repacked, UnpackedFloat.pack]
  simp only [hbias, if_neg hfits]
  by_cases hbits : m.log2 + 1 = Format.mantissaBits .binary64
  · rw [if_pos hbits, isFinite_unpack_packComponents]
    intro hmax
    have htoNat := congrArg BitVec.toNat hmax
    have hlargest : (-1#11).toNat = 2047 := rfl
    rw [BitVec.toNat_ofNat, hlargest] at htoNat
    omega
  · rw [if_neg hbits, isFinite_unpack_packComponents]
    decide

/-- Packing makes nothing that is not a number out of a number. -/
theorem isNaN_repacked (u : UnpackedFloat) : (repacked u).isNaN = u.isNaN := by
  cases u with
  | notANumber => rfl
  | infinity s => rw [repacked_infinity]
  | zero s => rw [repacked_zero]
  | finite s m e hm =>
    rcases Int.lt_or_le 971 e with he | he
    · rw [repacked_of_lt he]
      rfl
    · have hfinite : (repacked (.finite s m e hm)).isFinite := isFinite_repacked he
      cases hu : repacked (.finite s m e hm) with
      | notANumber => rw [hu] at hfinite; cases hfinite
      | infinity | zero | finite => rfl

/-- What is rounded is a number. -/
theorem isNaN_roundWithAccuracy (s : UnpackedFloat.Sign) (m : Nat) (e : Int) (acc : Accuracy) :
    (roundWithAccuracy .binary64 s m e acc).isNaN = false := by
  rw [roundWithAccuracy]
  dsimp only
  split <;> rfl

/-! ### Zeros and infinities -/

/-- The doubles of magnitude zero are the two zeros. -/
theorem ofFloat_eq_zero_iff : Magnitude.ofFloat v = 0 ↔ ∃ s, unpacked v = .zero s := by
  constructor
  · intro hzero
    have hlt := v.toBits.toNat_lt
    rw [Magnitude.ofFloat] at hzero
    rw [← Float.ofBits_toBits v, ← UInt64.ofNat_toNat (x := v.toBits)]
    obtain hbits | hbits : v.toBits.toNat = 0 ∨ v.toBits.toNat = 0x8000000000000000 := by omega
    · rw [hbits]
      exact ⟨.positive, rfl⟩
    · rw [hbits]
      exact ⟨.negative, rfl⟩
  · rintro ⟨s, hs⟩
    rw [← ofModel_pack_unpacked v, hs]
    cases s <;> decide +kernel

/-- A double equals zero exactly if its magnitude is zero, whatever its sign. -/
theorem beq_zero_iff : (v == 0) = true ↔ Magnitude.ofFloat v = 0 := by
  rw [ofFloat_eq_zero_iff]
  change ((unpacked v).compare (.zero .positive) == some .eq) = true ↔ _
  cases unpacked v with
  | notANumber => simp [UnpackedFloat.compare]
  | zero s => simp [UnpackedFloat.compare]
  | infinity s | finite s => cases s <;> simp [UnpackedFloat.compare]

/-- The infinite double without a sign. -/
theorem isInf_and_not_isNegative_iff :
    v.isInf = true ∧ isNegative v = false ↔ unpacked v = .infinity .positive := by
  constructor
  · rintro ⟨hinf, hsign⟩
    rw [isInf_eq] at hinf
    rw [← ofModel_pack_unpacked v] at hsign
    cases hv : unpacked v with
    | notANumber | zero | finite => rw [hv] at hinf; cases hinf
    | infinity s =>
      cases s with
      | positive => rfl
      | negative =>
        rw [hv] at hsign
        exact absurd hsign (by decide +kernel)
  · intro hv
    rw [← ofModel_pack_unpacked v, hv]
    decide +kernel

/-! ### What is not a number -/

/-- The square of a number is a number. -/
theorem isNaN_mul_self (h : v.isNaN = false) : (v * v).isNaN = false := by
  rw [isNaN_eq] at h
  rw [isNaN_eq, unpacked_mul, isNaN_repacked]
  cases hv : unpacked v with
  | notANumber => rw [hv] at h; cases h
  | infinity | zero => rfl
  | finite => exact isNaN_roundWithAccuracy _ _ _ _

/-- The reciprocal of a number is a number, also that of a zero, which is infinite. -/
theorem isNaN_one_div (h : v.isNaN = false) : (1 / v).isNaN = false := by
  obtain ⟨m, e, hm, hone⟩ := exists_unpacked_one
  rw [isNaN_eq] at h
  rw [isNaN_eq, unpacked_div, isNaN_repacked, hone]
  cases hv : unpacked v with
  | notANumber => rw [hv] at h; cases h
  | infinity | zero => rfl
  | finite => exact isNaN_roundWithAccuracy _ _ _ _

/-- The square root of a number is a number unless that is below zero. -/
theorem isNaN_sqrt_iff (h : v.isNaN = false) : v.sqrt.isNaN = true ↔ v < 0 := by
  rw [isNaN_eq] at h
  rw [isNaN_eq, unpacked_sqrt, isNaN_repacked, lt_zero_iff]
  cases hv : unpacked v with
  | notANumber => rw [hv] at h; cases h
  | infinity s => cases s <;> decide
  | zero => exact iff_of_false Bool.false_ne_true Bool.false_ne_true
  | finite s m e hm =>
    cases s with
    | negative => exact iff_of_true rfl rfl
    | positive =>
      rw [UnpackedFloat.sqrt, isNaN_roundWithAccuracy]
      exact iff_of_false Bool.false_ne_true Bool.false_ne_true

/-- The reciprocal of a zero is infinite. -/
theorem isInf_one_div (h : Magnitude.ofFloat v = 0) : (1 / v).isInf = true := by
  obtain ⟨s, hs⟩ := ofFloat_eq_zero_iff.mp h
  obtain ⟨m, e, hm, hone⟩ := exists_unpacked_one
  rw [isInf_eq, unpacked_div, hone, hs, UnpackedFloat.div, repacked_infinity]
  rfl

end DeskCalculator
