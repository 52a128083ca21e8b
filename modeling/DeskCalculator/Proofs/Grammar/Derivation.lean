import DeskCalculator.Expression

/-!
# Derivations of the expression grammar

The grammar of expressions is

```text
expression := term (("+" | "-") term)*
term       := factor (("*" | "/") factor)*
factor     := ("+" | "-") factor | primary ("^" factor)?
primary    := NUMBER | "(" expression ")"
```

A derivation is a tree of this grammar, and says nothing about how it is found. An expression and a
term are the same thing at two levels: a *chain*, which is an operand with any number of operators
of the level and further operands behind it. A derivation has the tokens at its leaves, a value, and
a nesting, which is the largest number of factors on a path from the root to a leaf.

## Main definitions

* `Level`, `Rule`: the two levels of chains, and the rules of the grammar.
* `Derivation`, `Continuation`: the trees of a rule, and what follows the first operand of a chain.
* `Derivation.tokens`, `Derivation.nesting`, `Derivation.value`: what a tree spells, how deep its
  factors are nested, and the double it denotes.
* `IsSentence`: the token sequences of expressions.
-/

namespace DeskCalculator

/-- The two levels at which operators form chains. -/
inductive Level where
  /-- Sums and differences of terms. -/
  | sum
  /-- Products and quotients of factors. -/
  | product
deriving DecidableEq

/-- The rules of the grammar. -/
inductive Rule where
  /-- A number or a group. -/
  | primary
  /-- A primary with a sign before it or an exponent behind it. -/
  | factor
  /-- Operands with operators of one level between them. -/
  | chain (l : Level)
deriving DecidableEq

/-- The rule of whole expressions. -/
abbrev Rule.expression : Rule := .chain .sum

/-- The rule of products and quotients of factors. -/
abbrev Rule.term : Rule := .chain .product

namespace Level

/-- The rule of the operands of a chain. -/
def operand : Level → Rule
  | sum => .term
  | product => .factor

/-- The operator of a level that a token is. -/
def operator? : Level → Token → Option BinaryOperator
  | sum => Token.sum?
  | product => Token.product?

end Level

mutual

/-- A derivation tree of a rule. -/
inductive Derivation : Rule → Type
  /-- A number. -/
  | number (value : Float) : Derivation .primary
  /-- An expression between parentheses. -/
  | group (inner : Derivation .expression) : Derivation .primary
  /-- A factor behind a sign. -/
  | signed (mark : Token) (sign : Sign) (h : mark.sign? = some sign)
      (operand : Derivation .factor) : Derivation .factor
  /-- A primary without an exponent. -/
  | plain (base : Derivation .primary) : Derivation .factor
  /-- A primary and its exponent. -/
  | power (base : Derivation .primary) (exponent : Derivation .factor) : Derivation .factor
  /-- The first operand of a chain, and what follows it. -/
  | chain (l : Level) (first : Derivation l.operand) (more : Continuation l) :
      Derivation (.chain l)

/-- Operators of one level, each with an operand behind it. -/
inductive Continuation : Level → Type
  /-- No further operator. -/
  | done (l : Level) : Continuation l
  /-- An operator and its right operand, and what follows them. -/
  | step (l : Level) (mark : Token) (op : BinaryOperator) (h : l.operator? mark = some op)
      (operand : Derivation l.operand) (more : Continuation l) : Continuation l

end

mutual

/-- The tokens at the leaves of a derivation, from left to right. -/
def Derivation.tokens {r : Rule} : Derivation r → List Token
  | .number value => [.number value]
  | .group inner => .leftParen :: (inner.tokens ++ [.rightParen])
  | .signed mark _ _ operand => mark :: operand.tokens
  | .plain base => base.tokens
  | .power base exponent => base.tokens ++ .caret :: exponent.tokens
  | .chain _ first more => first.tokens ++ more.tokens

/-- The tokens of the operators and operands that follow, from left to right. -/
def Continuation.tokens {l : Level} : Continuation l → List Token
  | .done _ => []
  | .step _ mark _ _ operand more => mark :: (operand.tokens ++ more.tokens)

end

/-- A derivation has tokens. -/
theorem Derivation.tokens_ne_nil {r : Rule} (d : Derivation r) : d.tokens ≠ [] := by
  match d with
  | .number _ | .group _ | .signed .. => exact List.cons_ne_nil _ _
  | .plain base => exact base.tokens_ne_nil
  | .power base _ => exact List.append_ne_nil_of_left_ne_nil base.tokens_ne_nil _
  | .chain _ first _ => exact List.append_ne_nil_of_left_ne_nil first.tokens_ne_nil _

mutual

/-- The largest number of factors on a path from the root of a derivation to a leaf. -/
def Derivation.nesting {r : Rule} : Derivation r → Nat
  | .number _ => 0
  | .group inner => inner.nesting
  | .signed _ _ _ operand => operand.nesting + 1
  | .plain base => base.nesting + 1
  | .power base exponent => max base.nesting exponent.nesting + 1
  | .chain _ first more => max first.nesting more.nesting

/-- The largest number of factors on a path into one of the operands that follow. -/
def Continuation.nesting {l : Level} : Continuation l → Nat
  | .done _ => 0
  | .step _ _ _ _ operand more => max operand.nesting more.nesting

end

mutual

/-- The double that a derivation denotes: every node applies its operation to the values of its
parts. -/
def Derivation.value (lib : Elementary) {r : Rule} : Derivation r → Float
  | .number value => value
  | .group inner => inner.value lib
  | .signed _ sign _ operand => sign.apply (operand.value lib)
  | .plain base => base.value lib
  | .power base exponent => BinaryOperator.power.apply lib (base.value lib) (exponent.value lib)
  | .chain _ first more => more.value lib (first.value lib)

/-- The operators that follow, applied one after the other from the left to the value of what stands
before them. -/
def Continuation.value (lib : Elementary) {l : Level} : Continuation l → Float → Float
  | .done _, left => left
  | .step _ _ op _ operand more, left => more.value lib (op.apply lib left (operand.value lib))

end

/-- The token sequences that the grammar derives from an expression. -/
def IsSentence (ts : List Token) : Prop := ∃ d : Derivation .expression, d.tokens = ts

end DeskCalculator
