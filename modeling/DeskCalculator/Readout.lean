import DeskCalculator.Decimal.Shortest

/-!
# The readout of a double

A double is shown without an exponent, however large or small it is. Its *plain text* has the fewest
digits that read back as the same double. The *readout* of the calculator differs from it in two
points: a whole number is shown by all its digits, exactly, and a zero has no sign.

## Main definitions

* `plainText`: the shortest text of a double.
* `isIntegral`: whether a double is a whole number.
* `readout`: what the calculator shows for a double.
-/

namespace DeskCalculator

/-- Whether the sign bit of a double is set. -/
def isNegative (v : Float) : Bool := 0x8000000000000000 ≤ v.toBits.toNat

/-- The sign that is written before a double: a minus, or nothing. -/
def signText (v : Float) : List Char := if isNegative v then ['-'] else []

/-- A double without an exponent and with the fewest digits that read back as it. -/
def plainText (v : Float) : String :=
  if v.isNaN then "NaN"
  else if v.isInf then String.ofList (signText v ++ ['i', 'n', 'f'])
  else String.ofList (signText v ++ (Decimal.shortest (Magnitude.ofFloat v)).plain)

/-- Whether a double is finite and has no fractional part. -/
def isIntegral (v : Float) : Bool :=
  v.isFinite && Magnitude.units (Magnitude.ofFloat v) % Magnitude.unitsInOne == 0

/-- What the calculator shows for a double: a zero as `0`, any other whole number by its exact
digits, and everything else by its plain text. -/
def readout (v : Float) : String :=
  if Magnitude.ofFloat v = 0 then "0"
  else if isIntegral v then
    String.ofList (signText v ++ Nat.toDigits 10 (Magnitude.wholePart (Magnitude.ofFloat v)))
  else plainText v

theorem signText_eq_nil {v : Float} (h : isNegative v = false) : signText v = [] := by
  simp [signText, h]

theorem readout_of_magnitude_eq_zero {v : Float} (h : Magnitude.ofFloat v = 0) :
    readout v = "0" := by
  simp [readout, h]

end DeskCalculator
