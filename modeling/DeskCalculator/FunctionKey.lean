import DeskCalculator.Failure
import DeskCalculator.Literal

/-!
# Function keys

Six keys apply a function of one operand to the whole input, which is read as one literal and never
as an expression. Two of the functions refuse operands outside their domain. Angles are given in
degrees.

## Main definitions

* `FunctionKey`: the six functions, with their labels.
* `FunctionKey.domainError?`: the error of an operand outside the domain.
* `FunctionKey.apply`: the value at an operand, which is not checked.
* `FunctionKey.evaluate`: the value at an input, which is read and checked.
-/

namespace DeskCalculator

/-- The double that an input denotes as a whole. -/
def operandOf (input : String) : Except DomainError Float :=
  match Literal.read? (trimSpaces input.toList) with
  | some l => .ok l.value
  | none => .error (.invalidLiteral input)

/-- A function of one operand with a key of its own. -/
inductive FunctionKey where
  /-- The square root, which no number below zero has. -/
  | squareRoot
  /-- The product of a number with itself. -/
  | square
  /-- One divided by a number, which zero does not allow. -/
  | reciprocal
  /-- The sine of an angle in degrees. -/
  | sine
  /-- The cosine of an angle in degrees. -/
  | cosine
  /-- The tangent of an angle in degrees. -/
  | tangent
deriving DecidableEq, Repr

namespace FunctionKey

/-- The functions in the order of their keys. -/
def all : List FunctionKey := [squareRoot, square, reciprocal, sine, cosine, tangent]

/-- The label of the key. -/
def label : FunctionKey → String
  | squareRoot => "sqrt"
  | square => "x^2"
  | reciprocal => "1/x"
  | sine => "sin"
  | cosine => "cos"
  | tangent => "tan"

/-- The function whose key has a label. -/
def ofLabel? (label : String) : Option FunctionKey := all.find? fun f => f.label = label

/-- The error of an operand at which the function is not defined. -/
def domainError? : FunctionKey → Float → Option DomainError
  | squareRoot, operand => if operand < 0 then some .negativeSquareRoot else none
  | reciprocal, operand => if operand == 0 then some .zeroReciprocal else none
  | square, _ | sine, _ | cosine, _ | tangent, _ => none

/-- The value of a function, whether its operand is in the domain or not. -/
def apply (lib : Elementary) : FunctionKey → Float → Float
  | squareRoot, operand => operand.sqrt
  | square, operand => operand * operand
  | reciprocal, operand => 1 / operand
  | sine, operand => lib.sine (radians operand)
  | cosine, operand => lib.cosine (radians operand)
  | tangent, operand => lib.tangent (radians operand)

/-- The value of a function at an operand in its domain. -/
def applyChecked (lib : Elementary) (f : FunctionKey) (operand : Float) :
    Except DomainError Float :=
  match f.domainError? operand with
  | some e => .error e
  | none => .ok (f.apply lib operand)

/-- The value of a function at the literal that an input is. -/
def evaluate (lib : Elementary) (f : FunctionKey) (input : String) : Except DomainError Float := do
  f.applyChecked lib (← operandOf input)

theorem label_of_ofLabel? {label : String} {f : FunctionKey} (h : ofLabel? label = some f) :
    f.label = label := by
  simpa using List.find?_some h

end FunctionKey

end DeskCalculator
