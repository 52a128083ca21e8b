import DeskCalculator.Numeral
import DeskCalculator.Operator

/-!
# Literals

A function key takes the whole input as one literal. Unlike a numeral inside an expression, a
literal may have a sign, a point with no digit behind it, and an exponent of ten:

```text
literal  := sign? mantissa exponent?
mantissa := digit+ ("." digit*)? | "." digit+
exponent := ("e" | "E") sign? digit+
```

Spaces around it are left out of account, and nothing else is. In particular infinity and what is
not a number cannot be spelled.

## Main definitions

* `Literal`: a signed number with an exponent of ten, and its value.
* `Literal.read?`: the literal that a text is.
* `trimSpaces`: a text without the spaces around it.
-/

namespace DeskCalculator

/-- A number with a sign and an exponent of ten. -/
structure Literal where
  /-- The sign; a plus if none is written. -/
  sign : Sign
  /-- The digits and the point. -/
  mantissa : Numeral
  /-- The power of ten that the mantissa is multiplied by; zero if none is written. -/
  exponent : Int
deriving DecidableEq, Repr

namespace Literal

/-- The number without its sign, as a decimal. -/
def decimal (l : Literal) : Decimal where
  coefficient := l.mantissa.decimal.coefficient
  exponent := l.mantissa.decimal.exponent + l.exponent

/-- The double nearest to the number without its sign, with the sign given to it. -/
def value (l : Literal) : Float := l.sign.apply l.decimal.toFloat

/-- The sign that begins a text, a plus if there is none, with the rest of the text. -/
def readSign (text : List Char) : Sign × List Char :=
  match text with
  | '+' :: rest => (.plus, rest)
  | '-' :: rest => (.minus, rest)
  | _ => (.plus, text)

/-- The mantissa that begins a text, with the rest of the text. It has a digit before or after the
point, or no point at all. -/
def readMantissa? (text : List Char) : Option (Numeral × List Char) :=
  let whole := text.takeWhile Char.isDigit
  match text.dropWhile Char.isDigit with
  | '.' :: more =>
    let fraction := more.takeWhile Char.isDigit
    if whole = [] ∧ fraction = [] then none
    else some (⟨whole, some fraction⟩, more.dropWhile Char.isDigit)
  | rest => if whole = [] then none else some (⟨whole, none⟩, rest)

/-- The exponent that a text is; the empty text is the exponent zero. -/
def readExponent? (text : List Char) : Option Int :=
  match text with
  | [] => some 0
  | c :: rest =>
    let (sign, digits) := readSign rest
    if (c = 'e' ∨ c = 'E') ∧ digits ≠ [] ∧ digits.all Char.isDigit then
      match sign with
      | .plus => some (Nat.ofDigitChars 10 digits 0)
      | .minus => some (-Nat.ofDigitChars 10 digits 0)
    else none

/-- The literal that a text is. -/
def read? (text : List Char) : Option Literal := do
  let (sign, unsigned) := readSign text
  let (mantissa, rest) ← readMantissa? unsigned
  let exponent ← readExponent? rest
  return ⟨sign, mantissa, exponent⟩

theorem readSign_of_ne {c : Char} {rest : List Char} (hplus : c ≠ '+') (hminus : c ≠ '-') :
    readSign (c :: rest) = (.plus, c :: rest) := by
  unfold readSign
  split
  · next h => exact absurd (List.cons.inj h).1 hplus
  · next h => exact absurd (List.cons.inj h).1 hminus
  · rfl

end Literal

/-- A text without the spaces at its beginning and end. -/
def trimSpaces (text : List Char) : List Char :=
  ((text.dropWhile (· = ' ')).reverse.dropWhile (· = ' ')).reverse

end DeskCalculator
