import DeskCalculator.Proofs.Number.Classes
import DeskCalculator.Proofs.Number.Nearest

/-!
# Operands that are not finite

An operand that is infinite or not a number spreads: the sum, the difference and the product of it
with anything are not finite either, and neither is its negation. A quotient is not finite if its
dividend is not, or if its divisor is zero or not a number. But divided by an infinity every finite
number is zero, so here the infinity is *absorbed*. What becomes of it in a power depends on the
elementary functions.

## Main definitions

* `BinaryOperator.absorbs`: an operator has a finite value although an operand is not finite.

## Main results

* `absorbs_iff`: besides powers, only a quotient by an infinity absorbs.
* `isFinite_div_zero`: no quotient with the divisor zero is finite.
-/

namespace DeskCalculator

open Float.Model Float.Model.UnpackedFloat

variable {v w : Float}

/-- Whether an operator absorbs an operand that is not finite, so that its value is finite. Sums,
differences and products never do. A quotient does if a finite number is divided by an infinity. -/
def BinaryOperator.absorbs (lib : Elementary) : BinaryOperator → Float → Float → Bool
  | .add, _, _ | .subtract, _, _ | .multiply, _, _ => false
  | .divide, left, right => left.isFinite && right.isInf
  | .power, left, right =>
    !(left.isFinite && right.isFinite) && (lib.power left right).isFinite

/-! ### Unpacked forms -/

theorem unpacked_add (v w : Float) :
    unpacked (v + w) = repacked ((unpacked v).add .binary64 (unpacked w)) := rfl

theorem unpacked_sub (v w : Float) :
    unpacked (v - w) = repacked ((unpacked v).sub .binary64 (unpacked w)) := rfl

theorem unpacked_neg (v : Float) : unpacked (-v) = repacked (unpacked v).neg := rfl

section Unpacked

variable {x y : UnpackedFloat} {f : Format}

/-- Packing makes nothing finite. -/
theorem isFinite_of_repacked (h : (repacked x).isFinite) : x.isFinite := by
  cases x with
  | notANumber => exact h
  | infinity s => rwa [repacked_infinity] at h
  | zero | finite => rfl

theorem isFinite_of_neg (h : x.neg.isFinite) : x.isFinite := by
  cases x with
  | notANumber | infinity => cases h
  | zero | finite => rfl

theorem isFinite_of_add (h : (x.add f y).isFinite) : x.isFinite ∧ y.isFinite := by
  cases x with
  | notANumber => cases h
  | infinity s =>
    cases y with
    | infinity s' =>
      rw [UnpackedFloat.add] at h
      split at h <;> cases h
    | notANumber | zero | finite => cases h
  | zero | finite =>
    cases y with
    | notANumber | infinity => cases h
    | zero | finite => exact ⟨rfl, rfl⟩

theorem isFinite_of_sub (h : (x.sub f y).isFinite) : x.isFinite ∧ y.isFinite := by
  cases x with
  | notANumber => cases h
  | infinity s =>
    cases y with
    | infinity s' =>
      rw [UnpackedFloat.sub] at h
      split at h <;> cases h
    | notANumber | zero | finite => cases h
  | zero | finite =>
    cases y with
    | notANumber | infinity => cases h
    | zero | finite => exact ⟨rfl, rfl⟩

theorem isFinite_of_mul (h : (x.mul f y).isFinite) : x.isFinite ∧ y.isFinite := by
  cases x with
  | notANumber => cases h
  | infinity => cases y <;> cases h
  | zero | finite =>
    cases y with
    | notANumber | infinity => cases h
    | zero | finite => exact ⟨rfl, rfl⟩

/-- A quotient that is finite has a finite dividend. Its divisor is finite and not zero, or it is
infinite. -/
theorem isFinite_of_div (h : (x.div f y).isFinite) :
    x.isFinite ∧ (y.isFinite ∧ (∀ s, y ≠ .zero s) ∨ y.isInf) := by
  cases x with
  | notANumber => cases h
  | infinity => cases y <;> cases h
  | zero | finite =>
    cases y with
    | notANumber | zero => cases h
    | infinity => exact ⟨rfl, .inr rfl⟩
    | finite => exact ⟨rfl, .inl ⟨rfl, nofun⟩⟩

end Unpacked

/-! ### Doubles -/

/-- A sign keeps a double finite or not finite. -/
theorem isFinite_sign (sign : Sign) (v : Float) : (sign.apply v).isFinite = v.isFinite := by
  cases sign with
  | plus => rfl
  | minus =>
    rw [Bool.eq_iff_iff]
    refine ⟨fun h ↦ ?_, fun h ↦ (isFinite_neg h).1⟩
    rw [Sign.apply, isFinite_eq, unpacked_neg] at h
    rw [isFinite_eq]
    exact isFinite_of_neg (isFinite_of_repacked h)

/-- A finite number divided by an infinity is finite. -/
theorem isFinite_div_isInf (hv : v.isFinite) (hw : w.isInf) : (v / w).isFinite := by
  rw [isFinite_eq] at hv
  rw [isInf_eq] at hw
  rw [isFinite_eq, unpacked_div]
  cases hy : unpacked w with
  | notANumber | zero | finite => rw [hy] at hw; cases hw
  | infinity =>
    cases hx : unpacked v with
    | notANumber | infinity => rw [hx] at hv; cases hv
    | zero | finite =>
      rw [UnpackedFloat.div, repacked_zero]
      rfl

/-- A quotient that is finite has a finite dividend. Its divisor is finite and not zero, or it is
infinite. -/
theorem isFinite_dividend (h : (v / w).isFinite) :
    v.isFinite ∧ (w.isFinite ∧ (w == 0) = false ∨ w.isInf) := by
  rw [isFinite_eq, unpacked_div] at h
  obtain ⟨hv, hw⟩ := isFinite_of_div (isFinite_of_repacked h)
  refine ⟨hv, hw.imp_left ?_⟩
  rintro ⟨hfinite, hne⟩
  refine ⟨hfinite, Bool.eq_false_iff.mpr fun hzero ↦ ?_⟩
  obtain ⟨s, hs⟩ := ofFloat_eq_zero_iff.mp (beq_zero_iff.mp hzero)
  exact hne s hs

/-- **A division by zero has no finite value**, whatever the dividend and the sign of the zero. -/
theorem isFinite_div_zero (h : (w == 0) = true) : (v / w).isFinite = false := by
  refine Bool.eq_false_iff.mpr fun hfinite ↦ ?_
  obtain ⟨-, ⟨-, hne⟩ | hinf⟩ := isFinite_dividend hfinite
  · rw [h] at hne
    cases hne
  · obtain ⟨s, hs⟩ := ofFloat_eq_zero_iff.mp (beq_zero_iff.mp h)
    rw [isInf_eq, hs] at hinf
    cases hinf

/-- **An operator absorbs exactly if its value is finite and not all its operands are.** -/
theorem absorbs_iff {lib : Elementary} {op : BinaryOperator} : op.absorbs lib v w = true ↔
    ¬ (v.isFinite ∧ w.isFinite) ∧ (op.apply lib v w).isFinite := by
  cases op with
  | add =>
    refine iff_of_false Bool.false_ne_true ?_
    rintro ⟨hoperands, hfinite⟩
    rw [BinaryOperator.apply, isFinite_eq, unpacked_add] at hfinite
    exact hoperands (isFinite_of_add (isFinite_of_repacked hfinite))
  | subtract =>
    refine iff_of_false Bool.false_ne_true ?_
    rintro ⟨hoperands, hfinite⟩
    rw [BinaryOperator.apply, isFinite_eq, unpacked_sub] at hfinite
    exact hoperands (isFinite_of_sub (isFinite_of_repacked hfinite))
  | multiply =>
    refine iff_of_false Bool.false_ne_true ?_
    rintro ⟨hoperands, hfinite⟩
    rw [BinaryOperator.apply, isFinite_eq, unpacked_mul] at hfinite
    exact hoperands (isFinite_of_mul (isFinite_of_repacked hfinite))
  | divide =>
    rw [BinaryOperator.absorbs, BinaryOperator.apply, Bool.and_eq_true]
    constructor
    · rintro ⟨hv, hw⟩
      refine ⟨?_, isFinite_div_isInf hv hw⟩
      rintro ⟨-, hfinite⟩
      rw [isInf_of_isFinite hfinite] at hw
      cases hw
    · rintro ⟨hoperands, hfinite⟩
      obtain ⟨hv, ⟨hw, -⟩ | hw⟩ := isFinite_dividend hfinite
      · exact absurd ⟨hv, hw⟩ hoperands
      · exact ⟨hv, hw⟩
  | power =>
    rw [BinaryOperator.absorbs, Bool.and_eq_true, Bool.not_eq_true', Bool.eq_false_iff, Ne,
      Bool.and_eq_true]
    rfl

end DeskCalculator
