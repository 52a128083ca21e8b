import DeskCalculator.Decimal
import DeskCalculator.Magnitude

/-!
# The double nearest to a decimal

A decimal denotes the double nearest to it, a tie going to the even magnitude. Decimals whose power
of ten alone puts them above every finite double, or below half of the least positive one, are
settled without computing that power.

## Main definitions

* `Decimal.magnitude`: the magnitude nearest to a decimal.
* `Decimal.toFloat`: the double nearest to a decimal.
-/

namespace DeskCalculator.Decimal

/-- The magnitude nearest to a decimal. Doubles end below `10^309`. A coefficient `c` is less than
`2 * 10^(log2 c)`, and `2 * 10^-325` is less than half of the least positive double. -/
def magnitude (d : Decimal) : Nat :=
  if d.coefficient = 0 then 0
  else if 309 ≤ d.exponent then Magnitude.infinite
  else if d.exponent < -(324 + d.coefficient.log2 : Int) then 0
  else Magnitude.nearest d.numerator d.denominator

/-- The double nearest to a decimal; it carries no sign. -/
def toFloat (d : Decimal) : Float := Magnitude.toFloat d.magnitude

theorem magnitude_le (d : Decimal) : d.magnitude ≤ Magnitude.infinite := by
  unfold magnitude
  split
  · exact Nat.zero_le _
  · split
    · exact Nat.le_refl _
    · split
      · exact Nat.zero_le _
      · exact Magnitude.nearest_le _ _

end DeskCalculator.Decimal
