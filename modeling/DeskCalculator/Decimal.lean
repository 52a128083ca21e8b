/-!
# Decimals

A decimal is a natural number times a power of ten. It is written in *plain* form: digits, with a
point where the power of ten asks for one, and never an exponent. A *reduced* decimal has no
trailing zero in its coefficient, so its plain form ends a fraction with a digit other than zero.

## Main definitions

* `Decimal`: coefficient and exponent of ten.
* `Decimal.numerator`, `Decimal.denominator`: the decimal as a quotient of natural numbers.
* `Decimal.reduced`: the same value without trailing zeros.
* `Decimal.plain`: the plain written form.
-/

namespace DeskCalculator

/-- The number `coefficient * 10 ^ exponent`. -/
structure Decimal where
  /-- The digits, read as one natural number. -/
  coefficient : Nat
  /-- The power of ten that the coefficient is multiplied by. -/
  exponent : Int
deriving DecidableEq, Repr

namespace Decimal

/-- The numerator of the decimal as a quotient of natural numbers. -/
def numerator (d : Decimal) : Nat := d.coefficient * Nat.pow 10 d.exponent.toNat

/-- The denominator of the decimal as a quotient of natural numbers: a power of ten. -/
def denominator (d : Decimal) : Nat := Nat.pow 10 (-d.exponent).toNat

/-- Moves trailing zeros of the coefficient into the exponent. Zero gets exponent zero. -/
def reduced (d : Decimal) : Decimal :=
  if _ : d.coefficient = 0 then ⟨0, 0⟩
  else if d.coefficient % 10 = 0 then reduced ⟨d.coefficient / 10, d.exponent + 1⟩
  else d
termination_by d.coefficient
decreasing_by exact Nat.div_lt_self (by omega) (by decide)

/-- The digits of the coefficient, the leading one first. -/
def digits (d : Decimal) : List Char := Nat.toDigits 10 d.coefficient

/-- Sets a point before the last `places` digits, with as many zeros in front as that takes. -/
def pointed (digits : List Char) (places : Nat) : List Char :=
  if places < digits.length then
    digits.take (digits.length - places) ++ '.' :: digits.drop (digits.length - places)
  else
    '0' :: '.' :: List.replicate (places - digits.length) '0' ++ digits

/-- The decimal written without an exponent: zeros behind the digits for a power of ten of at least
one, and a point among or before them otherwise. -/
def plain (d : Decimal) : List Char :=
  if 0 ≤ d.exponent then d.digits ++ List.replicate d.exponent.toNat '0'
  else pointed d.digits (-d.exponent).toNat

theorem denominator_pos (d : Decimal) : 0 < d.denominator := Nat.pow_pos (by decide)

theorem reduced_of_coefficient_eq_zero {d : Decimal} (h : d.coefficient = 0) :
    d.reduced = ⟨0, 0⟩ := by
  rw [reduced, dif_pos h]

/-- A reduced decimal is zero, or its last digit is not. -/
theorem coefficient_reduced (d : Decimal) :
    d.reduced = ⟨0, 0⟩ ∨ d.reduced.coefficient % 10 ≠ 0 := by
  fun_induction reduced d with
  | case1 => exact .inl rfl
  | case2 _ _ _ ih => exact ih
  | case3 _ _ h => exact .inr h

end Decimal

end DeskCalculator
