import DeskCalculator.Calculation
import DeskCalculator.Proofs.Grammar.NumeralSource
import DeskCalculator.Proofs.Number.Bits
import Mathlib.Control.Monad.Basic

/-!
# Readouts read back

What the calculator shows for a finite double is the plain text of a decimal that denotes the
magnitude of the double, behind a minus if the double has a sign and is not zero. Such a text is an
expression and an input, and either is read as the double that was shown. Only the sign of a
negative zero is lost. So a text that is shown as an answer is answered by itself.

## Main definitions

* `withoutZeroSign`: a double, but the negative zero as the positive one.

## Main results

* `exists_decimal_readout`: a readout is the plain text of a decimal with a sign.
* `readout_readBack`: readouts read back, and answers are answered by themselves.
-/

namespace DeskCalculator

/-- A double, but the negative zero as the positive one. -/
def withoutZeroSign (v : Float) : Float :=
  if v = Float.ofBits 0x8000000000000000 then Float.ofBits 0 else v

variable {v : Float}

/-- A zero is positive or negative. -/
theorem eq_zero_of_ofFloat_eq_zero (h : v.isFinite) (hzero : Magnitude.ofFloat v = 0) :
    v = Float.ofBits 0 ∨ v = Float.ofBits 0x8000000000000000 := by
  cases hsign : isNegative v with
  | false =>
    have hv := Magnitude.toFloat_ofFloat h hsign
    rw [hzero] at hv
    exact .inl hv.symm
  | true =>
    have hv := Magnitude.neg_toFloat_ofFloat h hsign
    have hneg : -Magnitude.toFloat 0 = Float.ofBits 0x8000000000000000 := by decide +kernel
    rw [hzero, hneg] at hv
    exact .inr hv.symm

theorem withoutZeroSign_of_zero (h : v.isFinite) (hzero : Magnitude.ofFloat v = 0) :
    withoutZeroSign v = Magnitude.toFloat 0 := by
  rcases eq_zero_of_ofFloat_eq_zero h hzero with rfl | rfl <;> decide +kernel

theorem withoutZeroSign_of_ne (hne : Magnitude.ofFloat v ≠ 0) : withoutZeroSign v = v := by
  have hv : v ≠ Float.ofBits 0x8000000000000000 := by
    rintro rfl
    exact hne (by decide +kernel)
  rw [withoutZeroSign, if_neg hv]

theorem isFinite_withoutZeroSign (h : v.isFinite) : (withoutZeroSign v).isFinite := by
  rw [withoutZeroSign]
  split
  · decide +kernel
  · exact h

/-- What is shown for a finite double is the plain text of a decimal that denotes its magnitude,
with a sign unless it is zero. -/
theorem exists_decimal_readout (h : v.isFinite) : ∃ d : Decimal,
    d.magnitude = Magnitude.ofFloat v ∧ readout v = String.ofList
      ((if Magnitude.ofFloat v = 0 then [] else signText v) ++ d.plain) := by
  have hlt := Magnitude.ofFloat_lt_infinite h
  rw [readout]
  split
  · next hzero =>
    refine ⟨⟨0, 0⟩, ?_, ?_⟩
    · rw [hzero, Decimal.magnitude, if_pos rfl]
    · rfl
  · split
    · next hintegral =>
      have hmod : Magnitude.units (Magnitude.ofFloat v) % Magnitude.unitsInOne = 0 := by
        rw [isIntegral, Bool.and_eq_true, beq_iff_eq] at hintegral
        exact hintegral.2
      refine ⟨⟨Magnitude.wholePart (Magnitude.ofFloat v), 0⟩, ?_, ?_⟩
      · rw [Decimal.magnitude_eq_of_value_eq (Decimal.value_wholePart hmod),
          Decimal.magnitude_expansion hlt]
      · rw [Decimal.plain, if_pos (Int.le_refl 0), Decimal.digits]
        exact congrArg _ (congrArg _ (List.append_nil _).symm)
    · refine ⟨Decimal.shortest (Magnitude.ofFloat v), Decimal.magnitude_shortest_eq hlt, ?_⟩
      rw [plainText, isNaN_of_isFinite h, isInf_of_isFinite h]
      rfl

/-- What is shown for a finite double is read as the double, as an expression and as an input. -/
theorem evaluate_readout (lib : Elementary) (h : v.isFinite) :
    evaluate lib (readout v) = .ok (withoutZeroSign v) ∧
      operandOf (readout v) = .ok (withoutZeroSign v) := by
  obtain ⟨d, hmagnitude, hreadout⟩ := exists_decimal_readout h
  have hform := d.wellFormed_numeral
  have hvalue : d.numeral.value = Magnitude.toFloat (Magnitude.ofFloat v) := by
    rw [d.value_numeral, Decimal.toFloat, hmagnitude]
  have hplain := evaluate_numeral lib hform
  have hminus := evaluate_minus_numeral lib hform
  have hplain' := operandOf_numeral hform
  have hminus' := operandOf_minus_numeral hform
  rw [d.text_numeral, hvalue] at hplain hminus hplain' hminus'
  rw [hreadout]
  by_cases hzero : Magnitude.ofFloat v = 0
  · rw [if_pos hzero, withoutZeroSign_of_zero h hzero, List.nil_append, ← hzero]
    exact ⟨hplain, hplain'⟩
  · rw [if_neg hzero, withoutZeroSign_of_ne hzero]
    cases hsign : isNegative v with
    | false =>
      rw [Magnitude.toFloat_ofFloat h hsign] at hplain hplain'
      rw [signText_eq_nil hsign]
      exact ⟨hplain, hplain'⟩
    | true =>
      have htext : signText v = ['-'] := if_pos hsign
      rw [Magnitude.neg_toFloat_ofFloat h hsign] at hminus hminus'
      rw [htext]
      exact ⟨hminus, hminus'⟩

/-- The sign of a zero is not shown. -/
theorem readout_withoutZeroSign (h : v.isFinite) : readout (withoutZeroSign v) = readout v := by
  by_cases hzero : Magnitude.ofFloat v = 0
  · have hpositive : Magnitude.ofFloat (Magnitude.toFloat 0) = 0 := by decide +kernel
    rw [withoutZeroSign_of_zero h hzero, readout_of_magnitude_eq_zero hzero,
      readout_of_magnitude_eq_zero hpositive]
  · rw [withoutZeroSign_of_ne hzero]

/-- A source has a finite value when its value is finite. -/
theorem calculate_eq_ok_iff {lib : Elementary} {source : String} :
    calculate lib source = .ok v ↔ evaluate lib source = .ok v ∧ v.isFinite := by
  rw [calculate]
  cases hvalue : evaluate lib source with
  | error e => exact ⟨nofun, nofun⟩
  | ok w =>
    change ensureFinite w = .ok v ↔ _
    rw [ensureFinite, Except.ok.injEq]
    split
    · next hw =>
      rw [Except.ok.injEq]
      exact ⟨fun heq ↦ ⟨heq, heq ▸ hw⟩, And.left⟩
    · next hw => exact ⟨nofun, fun ⟨heq, hv⟩ ↦ absurd (heq ▸ hv) hw⟩

/-- **Readouts read back.** The readout of a finite double is an expression and an input, and both
have the value of the double, except that a negative zero is read as the positive one. The value
that is read has the same readout. So every answer is its own answer. -/
theorem readout_readBack (lib : Elementary) :
    (∀ v : Float, v.isFinite →
      evaluate lib (readout v) = .ok (withoutZeroSign v) ∧
        operandOf (readout v) = .ok (withoutZeroSign v) ∧
        readout (withoutZeroSign v) = readout v) ∧
    ∀ source text, answer lib source = .ok text → answer lib text = .ok text := by
  refine ⟨fun v h ↦ ?_, fun source text h ↦ ?_⟩
  · obtain ⟨hevaluate, hoperand⟩ := evaluate_readout lib h
    exact ⟨hevaluate, hoperand, readout_withoutZeroSign h⟩
  · obtain ⟨v, hv, rfl⟩ := answer_eq_ok_iff.mp h
    have hfinite := (calculate_eq_ok_iff.mp hv).2
    refine answer_eq_ok_iff.mpr ⟨withoutZeroSign v, ?_, readout_withoutZeroSign hfinite⟩
    exact calculate_eq_ok_iff.mpr
      ⟨(evaluate_readout lib hfinite).1, isFinite_withoutZeroSign hfinite⟩

/-- The double nearest to `-1/10` is shown as `-0.1`, and is read from that. -/
theorem readout_readBack_tenth :
    evaluate .machine "-0.1" = .ok (Float.ofBits 0xBFB999999999999A) ∧
      operandOf "-0.1" = .ok (Float.ofBits 0xBFB999999999999A) ∧
      answer .machine "-0.1" = .ok "-0.1" := by
  obtain ⟨hreadout, hanswer⟩ := readout_readBack .machine
  have hshown : readout (Float.ofBits 0xBFB999999999999A) = "-0.1" := by decide +kernel
  have hsign : withoutZeroSign (Float.ofBits 0xBFB999999999999A) =
      Float.ofBits 0xBFB999999999999A := by decide +kernel
  obtain ⟨hevaluate, hoperand, -⟩ :=
    hreadout (Float.ofBits 0xBFB999999999999A) (by decide +kernel)
  rw [hshown, hsign] at hevaluate hoperand
  exact ⟨hevaluate, hoperand, hanswer "0-1/10" "-0.1" (by decide +kernel)⟩

end DeskCalculator
