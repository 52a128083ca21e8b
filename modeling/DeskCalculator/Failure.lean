import DeskCalculator.Readout

/-!
# Failures

A calculation fails because its text is no expression, because a function is not defined at its
operand, or because the result is not finite. A key press fails if there is no such key. The display
shows all of them alike; the causes are kept apart for whoever asks, each with a message.

## Main definitions

* `SyntaxError`: why a text is no expression, and the byte at which that shows.
* `DomainError`: why a function has no value.
* `Failure`: either of them, a result that is not finite, or an unknown key.
-/

namespace DeskCalculator

/-- Why a text is not an expression. Every cause has the byte at which it was found. -/
inductive SyntaxError where
  /-- A token, or a stray character, that cannot stand where it does. -/
  | unexpectedToken (token : String) (position : Nat)
  /-- The text ends where a number or a group is needed. -/
  | unexpectedEnd (position : Nat)
  /-- A group that is not closed. -/
  | unclosedGroup (position : Nat)
  /-- A token behind a complete expression. -/
  | trailingToken (token : String) (position : Nat)
  /-- More levels of nesting than are allowed. -/
  | tooDeep (position : Nat)
deriving DecidableEq, Repr

namespace SyntaxError

/-- The byte at which the error was found. -/
def position : SyntaxError → Nat
  | unexpectedToken _ position | unexpectedEnd position | unclosedGroup position
  | trailingToken _ position | tooDeep position => position

/-- What is wrong, without the place. -/
def description : SyntaxError → String
  | unexpectedToken token _ => s!"Unexpected token: {token}."
  | unexpectedEnd _ => "Unexpected end of input."
  | unclosedGroup _ => "Expected closing parenthesis ')' but none found."
  | trailingToken token _ => s!"Extra input after expression: {token}"
  | tooDeep _ => "Expression is nested too deeply."

/-- The place and what is wrong there. -/
def message (e : SyntaxError) : String := s!"Error at position {e.position}: {e.description}"

end SyntaxError

/-- Why a function of one operand has no value. -/
inductive DomainError where
  /-- The square root of a number below zero. -/
  | negativeSquareRoot
  /-- The reciprocal of zero. -/
  | zeroReciprocal
  /-- The input is not one number. -/
  | invalidLiteral (literal : String)
deriving DecidableEq, Repr

/-- What is wrong. -/
def DomainError.message : DomainError → String
  | negativeSquareRoot => "Domain error: Square root of a negative number."
  | zeroReciprocal => "Domain error: Reciprocal of zero."
  | invalidLiteral literal => s!"Domain error: '{literal}' is not a number."

/-- Why a calculation or a key press fails. -/
inductive Failure where
  /-- The text is not an expression. -/
  | malformed (error : SyntaxError)
  /-- A function has no value. -/
  | undefinedValue (error : DomainError)
  /-- The result is infinite, or not a number. -/
  | notFinite (value : Float)
  /-- There is no key with this label. -/
  | unknownKey (label : String)
deriving DecidableEq

namespace Failure

/-- What is wrong. -/
def message : Failure → String
  | malformed error => error.message
  | undefinedValue error => error.message
  | notFinite value => s!"Result is not a finite number: {plainText value}."
  | unknownKey label => s!"Unknown key '{label}'."

/-- The message of the error behind a failure, if there is one behind it. -/
def cause? : Failure → Option String
  | malformed error => some error.message
  | undefinedValue error => some error.message
  | notFinite _ | unknownKey _ => none

end Failure

/-- A double as a result: only finite ones are. -/
def ensureFinite (v : Float) : Except Failure Float :=
  if v.isFinite then .ok v else .error (.notFinite v)

theorem isFinite_of_ensureFinite {v w : Float} (h : ensureFinite v = .ok w) :
    w = v ∧ w.isFinite := by
  unfold ensureFinite at h
  split at h
  · next hv =>
    obtain rfl := Except.ok.inj h
    exact ⟨rfl, hv⟩
  · cases h

end DeskCalculator
