import DeskCalculator.FunctionKey

/-!
# Keys

The keypad has 24 keys in four rows. A label stands for a key: besides the labels of the keypad,
every single character that an expression may contain does, so that powers, groups and spaces can be
typed as well.

## Main definitions

* `Key`: what can be pressed.
* `Key.ofLabel?`: the key with a label.
* `keypad`: the labels as they are laid out.
-/

namespace DeskCalculator

/-- What can be pressed. -/
inductive Key where
  /-- A character to type. -/
  | input (c : Char)
  /-- The key `=`, which evaluates what has been typed. -/
  | equals
  /-- A key that applies a function to what has been typed. -/
  | function (f : FunctionKey)
  /-- The key `C`. -/
  | clearEntry
  /-- The key `CE`. -/
  | clearAll
deriving DecidableEq, Repr

/-- The labels of the keypad, row by row. -/
def keypad : List (List String) :=
  [["7", "8", "9", "/", "C", "CE"],
   ["4", "5", "6", "*", "sqrt", "x^2"],
   ["1", "2", "3", "-", "1/x", "sin"],
   ["0", ".", "+", "=", "cos", "tan"]]

namespace Key

/-- Whether a character can be typed by its label: a digit, a point, an operator, a parenthesis or a
space. -/
def isInput (c : Char) : Bool :=
  c.isDigit || ['.', '+', '-', '*', '/', '^', '(', ')', ' '].contains c

/-- The character key with a label. -/
def ofCharacter? (label : String) : Option Key :=
  match label.toList with
  | [c] => if isInput c then some (input c) else none
  | _ => none

/-- The key with a label. -/
def ofLabel? (label : String) : Option Key :=
  if label = "=" then some equals
  else if label = "C" then some clearEntry
  else if label = "CE" then some clearAll
  else ((FunctionKey.ofLabel? label).map function).or (ofCharacter? label)

/-- The key with a label, or the failure of a label that no key has. -/
def ofLabel (label : String) : Except Failure Key :=
  match ofLabel? label with
  | some key => .ok key
  | none => .error (.unknownKey label)

theorem ofLabel_eq_ok_iff {label : String} {key : Key} :
    ofLabel label = .ok key ↔ ofLabel? label = some key := by
  unfold ofLabel
  cases ofLabel? label <;> simp

end Key

end DeskCalculator
