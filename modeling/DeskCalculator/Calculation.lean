import DeskCalculator.Expression
import DeskCalculator.FunctionKey

/-!
# Calculations

A calculation evaluates an expression, or applies a function to an input, and rejects a result that
is not finite. So a division by zero that reaches the result ends in a failure. The display shows
the readout of a result, and one and the same word for every failure.

## Main definitions

* `calculate`, `FunctionKey.calculate`: the finite result of an expression or of a function.
* `answer`: the readout of the result of an expression.
* `shown`: what the display shows for a calculation.
-/

namespace DeskCalculator

/-- The finite value of an expression. -/
def calculate (lib : Elementary) (source : String) : Except Failure Float := do
  ensureFinite (← (evaluate lib source).mapError .malformed)

/-- The finite value of a function at an input. -/
def FunctionKey.calculate (lib : Elementary) (f : FunctionKey) (input : String) :
    Except Failure Float := do
  ensureFinite (← (f.evaluate lib input).mapError .undefinedValue)

/-- The readout of the finite value of an expression. -/
def answer (lib : Elementary) (source : String) : Except Failure String :=
  (calculate lib source).map readout

/-- What the display shows for every failure. -/
def errorText : String := "Error"

/-- What the display shows for the outcome of a calculation. -/
def shown : Except Failure Float → String
  | .ok v => readout v
  | .error _ => errorText

/-- What the display shows for an expression. -/
def shownAnswer (lib : Elementary) (source : String) : String := shown (calculate lib source)

theorem answer_eq_ok_iff {lib : Elementary} {source text : String} :
    answer lib source = .ok text ↔ ∃ v, calculate lib source = .ok v ∧ readout v = text := by
  unfold answer
  cases calculate lib source <;> simp [Except.map]

end DeskCalculator
