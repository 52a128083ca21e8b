/-!
# Elementary functions

The four operations of arithmetic and the square root of doubles are rounded exactly, so their
results are fixed. Powers and the functions of trigonometry are not: their last bit belongs to the
mathematics library of the machine. The calculator therefore takes them as a parameter, and what is
proved about it holds for every choice of them.

## Main definitions

* `Elementary`: powers, sine, cosine and tangent of doubles.
* `Elementary.machine`: those of the machine that the program runs on.
* `radians`: degrees as radians.
-/

namespace DeskCalculator

/-- The functions on doubles whose values are not fixed by exact rounding. -/
structure Elementary where
  /-- A base raised to an exponent. -/
  power : Float → Float → Float
  /-- The sine of an angle in radians. -/
  sine : Float → Float
  /-- The cosine of an angle in radians. -/
  cosine : Float → Float
  /-- The tangent of an angle in radians. -/
  tangent : Float → Float

/-- The elementary functions of the machine that the program runs on. -/
def Elementary.machine : Elementary where
  power := Float.pow
  sine := Float.sin
  cosine := Float.cos
  tangent := Float.tan

/-- One degree in radians: the quotient of the double nearest to `π` and 180. -/
def radiansPerDegree : Float := Float.ofBits 0x400921FB54442D18 / Float.ofBits 0x4066800000000000

/-- An angle in degrees as radians, by a single multiplication. -/
def radians (degrees : Float) : Float := degrees * radiansPerDegree

end DeskCalculator
