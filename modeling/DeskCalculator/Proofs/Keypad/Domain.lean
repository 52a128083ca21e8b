import DeskCalculator.Calculation
import DeskCalculator.Proofs.Number.Nearest
import DeskCalculator.Proofs.Number.Overflow

/-!
# The domains of the function keys

A function key checks its operand before it calculates and the result behind it. The first check
refuses the square root of a number below zero and the reciprocal of a zero. What is left for the
second one is a result that is too large, and the sine, the cosine or the tangent of an infinite
angle. An input can denote an infinity, if it is too large, and a zero, if it is too small, but it
always denotes a number, so every operand is of a class for which one of the checks is responsible.

## Main definitions

* `IsTrigonometric`: what is relied on in the functions of trigonometry.

## Main results

* `FunctionKey.calculate_of_operandOf`: the outcome at an operand.
* `isNaN_of_operandOf`: the operand that an input denotes is a number.
* `FunctionKey.calculate_domain`: the inputs that are refused by either check.
-/

namespace DeskCalculator

variable {lib : Elementary} {f : FunctionKey} {input : String} {x v w : Float}

/-- A function of trigonometry is finite at finite angles, and has no number for an infinite one. -/
structure IsTrigonometric (f : Float → Float) : Prop where
  /-- It is finite at finite angles. -/
  isFinite : ∀ v : Float, v.isFinite → (f v).isFinite
  /-- It has no number for an infinite angle. -/
  isNaN : ∀ v : Float, v.isInf → (f v).isNaN

/-- What is relied on in the elementary functions. -/
structure Elementary.IsRegular (lib : Elementary) : Prop where
  /-- The sine is a function of trigonometry. -/
  sine : IsTrigonometric lib.sine
  /-- The cosine is a function of trigonometry. -/
  cosine : IsTrigonometric lib.cosine
  /-- The tangent is a function of trigonometry. -/
  tangent : IsTrigonometric lib.tangent

/-! ### The two checks -/

/-- The second check refuses what is not finite. -/
theorem ensureFinite_eq_error_iff :
    ensureFinite v = .error (.notFinite w) ↔ v.isFinite = false ∧ v = w := by
  rw [ensureFinite]
  by_cases hv : v.isFinite
  · simp [hv]
  · simp [hv]

theorem ensureFinite_ne_undefinedValue (v : Float) (e : DomainError) :
    ensureFinite v ≠ .error (.undefinedValue e) := by
  rw [ensureFinite]
  split <;> exact nofun

namespace FunctionKey

/-- The outcome at the operand that an input denotes: the operand is checked, and the result is. -/
theorem calculate_of_operandOf (h : operandOf input = .ok x) : f.calculate lib input =
    match f.domainError? x with
    | some e => .error (.undefinedValue e)
    | none => ensureFinite (f.apply lib x) := by
  rw [calculate, evaluate, h]
  change (f.applyChecked lib x).mapError .undefinedValue >>= ensureFinite = _
  rw [applyChecked]
  cases f.domainError? x <;> rfl

/-- The first check is the only one that finds a function undefined. -/
theorem calculate_eq_undefinedValue_iff (h : operandOf input = .ok x) {e : DomainError} :
    f.calculate lib input = .error (.undefinedValue e) ↔ f.domainError? x = some e := by
  rw [calculate_of_operandOf h]
  cases hdomain : f.domainError? x with
  | some e' => simp
  | none => simpa using ensureFinite_ne_undefinedValue _ e

/-- The second check is for what the first one lets through. -/
theorem calculate_eq_notFinite_iff (h : operandOf input = .ok x) :
    f.calculate lib input = .error (.notFinite v) ↔
      f.domainError? x = none ∧ (f.apply lib x).isFinite = false ∧ f.apply lib x = v := by
  rw [calculate_of_operandOf h]
  cases hdomain : f.domainError? x with
  | some e' => simp
  | none => simpa using ensureFinite_eq_error_iff

/-- A value is what both checks let through. -/
theorem isFinite_of_calculate (h : f.calculate lib input = .ok v) : v.isFinite := by
  rw [calculate] at h
  cases hresult : (f.evaluate lib input).mapError Failure.undefinedValue with
  | error e => rw [hresult] at h; cases h
  | ok w =>
    rw [hresult] at h
    exact (isFinite_of_ensureFinite h).2

end FunctionKey

/-! ### The operands of every class -/

/-- An input denotes a number, which may be infinite or zero. -/
theorem isNaN_of_operandOf (h : operandOf input = .ok x) : x.isNaN = false := by
  rw [operandOf] at h
  split at h
  · next l _ =>
    obtain rfl := Except.ok.inj h
    exact (l.decimal.isRounded_apply_toFloat l.sign).1.isNaN_eq
  · cases h

namespace FunctionKey

/-- The square root of a number is refused exactly if it is no number. -/
theorem calculate_squareRoot_undefined_iff (h : operandOf input = .ok x) :
    squareRoot.calculate lib input = .error (.undefinedValue .negativeSquareRoot) ↔
      x.sqrt.isNaN = true := by
  rw [calculate_eq_undefinedValue_iff h, isNaN_sqrt_iff (isNaN_of_operandOf h)]
  simp [domainError?]

/-- The square root is too large exactly at the infinity without a sign. -/
theorem calculate_squareRoot_notFinite_iff (h : operandOf input = .ok x) :
    (∃ v, squareRoot.calculate lib input = .error (.notFinite v)) ↔
      x.isInf = true ∧ isNegative x = false := by
  have hdomain : squareRoot.domainError? x = none ↔ ¬ x < 0 := by simp [domainError?]
  rw [← isFinite_sqrt_eq_false_iff (isNaN_of_operandOf h), ← hdomain]
  simp only [calculate_eq_notFinite_iff h, exists_and_left, exists_eq', and_true]
  rfl

/-- The reciprocal is refused exactly at a zero. -/
theorem calculate_reciprocal_undefined_iff (h : operandOf input = .ok x) :
    reciprocal.calculate lib input = .error (.undefinedValue .zeroReciprocal) ↔
      Magnitude.ofFloat x = 0 := by
  rw [calculate_eq_undefinedValue_iff h, ← beq_zero_iff]
  simp [domainError?]

/-- The functions without an angle give no result that is not a number. -/
theorem isNaN_of_notFinite (h : operandOf input = .ok x)
    (hf : f ∈ [squareRoot, square, reciprocal])
    (hv : f.calculate lib input = .error (.notFinite v)) : v.isNaN = false := by
  have hnumber := isNaN_of_operandOf h
  obtain ⟨hdomain, -, rfl⟩ := (calculate_eq_notFinite_iff h).mp hv
  simp only [List.mem_cons, List.not_mem_nil, or_false] at hf
  obtain rfl | rfl | rfl := hf
  · have hsign : ¬ x < 0 := by simpa [domainError?] using hdomain
    exact Bool.eq_false_iff.mpr (hsign ∘ (isNaN_sqrt_iff hnumber).mp)
  · exact isNaN_mul_self hnumber
  · exact isNaN_one_div hnumber

/-- A function of an angle is one of trigonometry at the radians, and is defined everywhere. -/
theorem exists_apply_eq (hlib : lib.IsRegular) (hf : f ∈ [sine, cosine, tangent]) (x : Float) :
    ∃ g, IsTrigonometric g ∧ f.domainError? x = none ∧ f.apply lib x = g (radians x) := by
  simp only [List.mem_cons, List.not_mem_nil, or_false] at hf
  obtain rfl | rfl | rfl := hf
  · exact ⟨_, hlib.sine, rfl, rfl⟩
  · exact ⟨_, hlib.cosine, rfl, rfl⟩
  · exact ⟨_, hlib.tangent, rfl, rfl⟩

/-- A function of an angle has a finite value unless the angle is infinite. -/
theorem calculate_angle_notFinite_iff (hlib : lib.IsRegular) (h : operandOf input = .ok x)
    (hf : f ∈ [sine, cosine, tangent]) :
    (∃ v, f.calculate lib input = .error (.notFinite v)) ↔ x.isInf = true := by
  obtain ⟨g, hg, hdomain, happly⟩ := exists_apply_eq hlib hf x
  simp only [calculate_eq_notFinite_iff h, hdomain, happly, true_and, exists_eq_right']
  by_cases hinf : x.isInf
  · exact iff_of_true (isFinite_eq_false_of_isNaN (hg.isNaN _ (isInf_radians hinf))) hinf
  · have hfinite := isFinite_of_isInf_eq_false (isNaN_of_operandOf h) (Bool.eq_false_iff.mpr hinf)
    rw [hg.isFinite _ (isFinite_radians hfinite)]
    exact iff_of_false Bool.false_ne_true.symm hinf

/-- **The two checks leave no undefined result behind.** For an input that denotes an operand, the
square root is refused exactly if it is no number, and too large exactly at the infinity without a
sign. The reciprocal is refused exactly at the zeros, also if the input is only rounded to one. None
of the functions without an angle is refused for a result that is not a number. A function of an
angle is not finite exactly at an infinite angle, and is never undefined. Every value is finite. -/
theorem calculate_domain (lib : Elementary) (hlib : lib.IsRegular) (input : String) (x : Float)
    (h : operandOf input = .ok x) :
    (squareRoot.calculate lib input = .error (.undefinedValue .negativeSquareRoot) ↔
      x.sqrt.isNaN = true) ∧
    ((∃ v, squareRoot.calculate lib input = .error (.notFinite v)) ↔
      x.isInf = true ∧ isNegative x = false) ∧
    (reciprocal.calculate lib input = .error (.undefinedValue .zeroReciprocal) ↔
      Magnitude.ofFloat x = 0) ∧
    (∀ f ∈ [squareRoot, square, reciprocal], ∀ v,
      f.calculate lib input = .error (.notFinite v) → v.isNaN = false) ∧
    (∀ f ∈ [sine, cosine, tangent],
      ((∃ v, f.calculate lib input = .error (.notFinite v)) ↔ x.isInf = true) ∧
        ∀ e, f.calculate lib input ≠ .error (.undefinedValue e)) ∧
    ∀ (f : FunctionKey) text v, f.calculate lib text = .ok v → v.isFinite = true := by
  refine ⟨calculate_squareRoot_undefined_iff h, calculate_squareRoot_notFinite_iff h,
    calculate_reciprocal_undefined_iff h, fun f hf v hv ↦ isNaN_of_notFinite h hf hv,
    fun f hf ↦ ⟨calculate_angle_notFinite_iff hlib h hf, fun e he ↦ ?_⟩,
    fun f text v hv ↦ isFinite_of_calculate hv⟩
  obtain ⟨-, -, hdomain, -⟩ := exists_apply_eq hlib hf x
  rw [calculate_eq_undefinedValue_iff h, hdomain] at he
  cases he

end FunctionKey

/-! ### Inputs that are too large and too small -/

/-- A function of trigonometry that has one value at all finite angles. -/
theorem isTrigonometric_constant {y : Float} (hy : y.isFinite) :
    IsTrigonometric fun v ↦ if v.isFinite then y else 0 / 0 := by
  refine ⟨fun v hv ↦ ?_, fun v hv ↦ ?_⟩
  · rwa [if_pos hv]
  · rw [isFinite_eq_false_of_isInf hv, if_neg Bool.false_ne_true]
    decide +kernel

/-- Elementary functions that are right at zero and at the infinities. -/
def Elementary.coarse : Elementary where
  power := Float.pow
  sine v := if v.isFinite then 0 else 0 / 0
  cosine v := if v.isFinite then 1 else 0 / 0
  tangent v := if v.isFinite then 0 else 0 / 0

theorem Elementary.isRegular_coarse : Elementary.coarse.IsRegular where
  sine := isTrigonometric_constant (by decide +kernel)
  cosine := isTrigonometric_constant (by decide +kernel)
  tangent := isTrigonometric_constant (by decide +kernel)

namespace FunctionKey

/-- The input `-1e999` denotes an infinity with a sign, and `1e-999` a zero. -/
theorem calculate_domain_extremes :
    squareRoot.calculate .coarse "-1e999" = .error (.undefinedValue .negativeSquareRoot) ∧
      (∃ v, cosine.calculate .coarse "-1e999" = .error (.notFinite v)) ∧
      reciprocal.calculate .coarse "1e-999" = .error (.undefinedValue .zeroReciprocal) ∧
      ¬ ∃ v, cosine.calculate .coarse "1e-999" = .error (.notFinite v) := by
  have hlarge : operandOf "-1e999" = .ok (Float.ofBits 0xFFF0000000000000) := by decide +kernel
  have hsmall : operandOf "1e-999" = .ok (Float.ofBits 0) := by decide +kernel
  obtain ⟨hroot, -, -, -, hangle, -⟩ :=
    calculate_domain .coarse Elementary.isRegular_coarse "-1e999" _ hlarge
  obtain ⟨-, -, hreciprocal, -, hangle', -⟩ :=
    calculate_domain .coarse Elementary.isRegular_coarse "1e-999" _ hsmall
  refine ⟨hroot.mpr (by decide +kernel), (hangle cosine (by decide)).1.mpr (by decide +kernel),
    hreciprocal.mpr (by decide +kernel), fun h ↦ ?_⟩
  have hinf := (hangle' cosine (by decide)).1.mp h
  exact absurd hinf (by decide +kernel)

end FunctionKey

end DeskCalculator
