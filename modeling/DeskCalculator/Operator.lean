import DeskCalculator.Elementary

/-!
# Operators

Five operators stand between two operands, and a sign stands before one. All of them act on doubles
and none of them fails: a division by zero gives an infinity, or the double that is not a number.

## Main definitions

* `BinaryOperator`, `BinaryOperator.apply`: the operators between two operands.
* `Sign`, `Sign.apply`: the signs before one operand.
-/

namespace DeskCalculator

/-- An operator between two operands. -/
inductive BinaryOperator where
  /-- The operator `+`. -/
  | add
  /-- The operator `-` between two operands. -/
  | subtract
  /-- The operator `*`. -/
  | multiply
  /-- The operator `/`. -/
  | divide
  /-- The operator `^`. -/
  | power
deriving DecidableEq, Repr

/-- The value of an operator on two doubles. -/
def BinaryOperator.apply (lib : Elementary) : BinaryOperator → Float → Float → Float
  | .add, left, right => left + right
  | .subtract, left, right => left - right
  | .multiply, left, right => left * right
  | .divide, left, right => left / right
  | .power, left, right => lib.power left right

/-- A sign before an operand. -/
inductive Sign where
  /-- The sign `+`, which changes nothing. -/
  | plus
  /-- The sign `-`, which negates. -/
  | minus
deriving DecidableEq, Repr

/-- The value of a signed double. -/
def Sign.apply : Sign → Float → Float
  | .plus, operand => operand
  | .minus, operand => -operand

end DeskCalculator
