import DeskCalculator.Cursor

/-!
# Expressions

An expression is evaluated while it is read, in one pass and without a tree. The grammar is

```text
expression := term (("+" | "-") term)*
term       := factor (("*" | "/") factor)*
factor     := ("+" | "-") factor | primary ("^" factor)?
primary    := NUMBER | "(" expression ")"
```

so sums and products group to the left, powers group to the right, and a power binds tighter than a
sign before it. Every factor opens a level of nesting and closes it behind itself.

A factor is the only rule that the grammar comes back to, so each of the other rules takes the
production of the factors inside it as an argument, and the recursion is in `factorFrom` alone. It
goes down to factors inside factors a given number of times. A factor inside another one begins
behind a token of the outer one, so the number of remaining steps is more than enough, and so it is
for the operands of a chain.

## Main definitions

* `Expression.term`, `Expression.expression`, `Expression.primary`, `Expression.signed`: the rules,
  over the production of a factor.
* `Expression.factor`: a factor with all that is nested in it.
* `evaluateWithin`, `evaluate`: the value of a source that is one expression.
-/

namespace DeskCalculator

namespace Expression

variable (lib : Elementary)

/-- Operators of one precedence with an operand behind each, at most `steps` of them, applied from
the left to the value of what stands before. -/
def chainFrom (operator? : Token → Option BinaryOperator) (operand : Production Float) :
    Nat → Float → Production Float
  | 0, left => pure left
  | steps + 1, left => do
    match (← get).peek.bind operator? with
    | none => return left
    | some op =>
      Cursor.advance
      let right ← operand
      chainFrom operator? operand steps (op.apply lib left right)

/-- An operand, and as many operators of one precedence with a further operand as there are. -/
def chain (operator? : Token → Option BinaryOperator) (operand : Production Float) :
    Production Float := do
  let left ← operand
  let steps := (← get).remaining
  chainFrom lib operator? operand steps left

variable (factor : Production Float)

/-- A product or quotient of factors. -/
def term : Production Float := chain lib Token.product? factor

/-- A sum or difference of terms. -/
def expression : Production Float := chain lib Token.sum? (term lib factor)

/-- An expression between parentheses; the cursor looks at the opening one. -/
def group : Production Float := do
  Cursor.advance
  let value ← expression lib factor
  if ← Cursor.eat .rightParen then
    return value
  else
    Cursor.fail .unclosedGroup

/-- A number, or a group. -/
def primary : Production Float := do
  match (← get).peek with
  | some (.number value) =>
    Cursor.advance
    return value
  | some .leftParen => group lib factor
  | some token => Cursor.fail (.unexpectedToken token.text)
  | none => Cursor.fail .unexpectedEnd

/-- A base raised to the exponent behind it, if there is one. The exponent is a factor, which lets
it have a sign and an exponent of its own. -/
def raised (base : Float) : Production Float := do
  if ← Cursor.eat .caret then
    let exponent ← factor
    return BinaryOperator.power.apply lib base exponent
  else
    return base

/-- A sign with a factor behind it, or a primary that may be raised to a power. -/
def signed : Production Float := do
  match (← get).peek.bind Token.sign? with
  | some sign =>
    Cursor.advance
    let operand ← factor
    return sign.apply operand
  | none =>
    let base ← primary lib factor
    raised lib factor base

/-- A factor in which factors are nested at most `depth` times; a factor nested deeper is read by
`deepest`. -/
def factorFrom (limit? : Option Nat) (deepest : Production Float) : Nat → Production Float
  | 0 => fun c => deepest c
  | depth + 1 => fun c =>
    Cursor.nested limit? (signed lib (factorFrom limit? deepest depth)) c

/-- A factor with all that is nested in it. No factor nests deeper than there are steps left. -/
def factorWithin (limit? : Option Nat) (c : Cursor) : Production Float :=
  factorFrom lib limit? (Cursor.fail .tooDeep) (c.remaining + 1)

end Expression

namespace Cursor

variable (lib : Elementary)

/-- Reads an expression, with at most `nestingLimit` levels of nesting open at a time. -/
def expression : Production Float := fun c =>
  Expression.expression lib (Expression.factorWithin lib (some nestingLimit) c) c

/-- Reads a term, with at most `nestingLimit` levels of nesting open at a time. -/
def term : Production Float := fun c =>
  Expression.term lib (Expression.factorWithin lib (some nestingLimit) c) c

/-- Reads a factor, with at most `nestingLimit` levels of nesting open at a time. -/
def factor : Production Float := fun c =>
  Expression.factorWithin lib (some nestingLimit) c c

end Cursor

/-- Reads an expression with nothing behind it, from the first step on. -/
def Expression.complete (limit? : Option Nat) (lib : Elementary) : Production Float := do
  Cursor.advance
  let factor := factorWithin lib limit? (← get)
  let value ← expression lib factor
  match (← get).peek with
  | none => return value
  | some token => Cursor.fail (.trailingToken token.text)

/-- The value of a source that is one expression, under a limit on the levels of nesting, or under
none. -/
def evaluateWithin (limit? : Option Nat) (lib : Elementary) (source : String) :
    Except SyntaxError Float :=
  match Expression.complete limit? lib (Cursor.before source) with
  | .ok value _ => .ok value
  | .error e _ => .error e

/-- The value of a source that is one expression. Its levels of nesting are limited. -/
def evaluate (lib : Elementary) (source : String) : Except SyntaxError Float :=
  evaluateWithin (some nestingLimit) lib source

end DeskCalculator
