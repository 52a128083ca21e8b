/-!
# Magnitudes of doubles

The bits of a double without its sign bit, read as a natural number, are its *magnitude*.
Magnitudes order the nonnegative doubles by size: one more is the next double. Every finite double
is a whole number of *units* of `2^-1074`, and the magnitude tells that number directly. Its upper
bits, less one, say how often the significand is doubled, and the significand is what is left.

Rounding a quotient to the nearest double is then a division of natural numbers: the quotient is
counted in units, all but its upper 53 bits are dropped, and the dropped part decides between the
two neighbours. A half goes to the neighbour with the even magnitude.

## Main definitions

* `Magnitude.units`: the value of a magnitude, counted in units of `2^-1074`.
* `Magnitude.nearest`: the magnitude nearest to a quotient of two natural numbers.
* `Magnitude.ofFloat`, `Magnitude.toFloat`: the magnitude of a double, and the nonnegative double
  of a magnitude.
-/

namespace DeskCalculator.Magnitude

/-- The magnitude of infinity; the finite ones lie below it. -/
def infinite : Nat := 0x7FF0000000000000

/-- There are `2^1074` units in one. -/
def unitsInOne : Nat := Nat.pow 2 1074

/-- How often the significand of a magnitude is doubled. -/
def doublings (m : Nat) : Nat := m / 0x10000000000000 - 1

/-- The significand of a magnitude: below `2^53`, and at least `2^52` unless nothing is doubled. -/
def significand (m : Nat) : Nat := m - doublings m * 0x10000000000000

/-- The value of a magnitude in units of `2^-1074`. -/
def units (m : Nat) : Nat := significand m * Nat.pow 2 (doublings m)

/-- The whole part of the value. -/
def wholePart (m : Nat) : Nat := units m / unitsInOne

/-- The whole number nearest to `quotient + remainder / divisor`; a half goes to the even one. -/
def halfEven (quotient remainder divisor : Nat) : Nat :=
  match compare (2 * remainder) divisor with
  | .lt => quotient
  | .eq => quotient + quotient % 2
  | .gt => quotient + 1

/-- The magnitude nearest to `num / den`, a half going to the even one. What lies half a step or
more above the largest finite double becomes infinite. -/
def nearest (num den : Nat) : Nat :=
  let scaled := num * unitsInOne
  let dropped := (scaled / den).log2 - 52
  let step := den * Nat.pow 2 dropped
  min infinite (dropped * 0x10000000000000 + halfEven (scaled / step) (scaled % step) step)

/-- The magnitude of a double: its bits without the sign. -/
def ofFloat (v : Float) : Nat := v.toBits.toNat % 0x8000000000000000

/-- The double that has a given magnitude and no sign. -/
def toFloat (m : Nat) : Float := Float.ofBits (UInt64.ofNat m)

theorem doublings_eq_zero {m : Nat} (h : m < 0x20000000000000) : doublings m = 0 := by
  unfold doublings
  omega

/-- Below `2^53` a magnitude counts its own units: these are the subnormal doubles and the first
normal ones. -/
theorem units_eq_self {m : Nat} (h : m < 0x20000000000000) : units m = m := by
  simp [units, significand, doublings_eq_zero h]

theorem significand_lt (m : Nat) : significand m < 0x20000000000000 := by
  unfold significand doublings
  omega

theorem le_significand {m : Nat} (h : 0x10000000000000 ≤ m) : 0x10000000000000 ≤ significand m := by
  unfold significand doublings
  omega

theorem halfEven_le (q r d : Nat) : q ≤ halfEven q r d := by
  unfold halfEven
  split <;> omega

theorem halfEven_le_succ (q r d : Nat) : halfEven q r d ≤ q + 1 := by
  unfold halfEven
  split <;> omega

@[simp] theorem halfEven_exact {d : Nat} (q : Nat) (h : 0 < d) : halfEven q 0 d = q := by
  rw [halfEven, Nat.compare_eq_lt.2 (by omega)]

theorem nearest_le (num den : Nat) : nearest num den ≤ infinite := Nat.min_le_left _ _

end DeskCalculator.Magnitude
