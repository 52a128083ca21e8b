import DeskCalculator.Numeral
import DeskCalculator.Operator
import DeskCalculator.Readout

/-!
# Tokens

An expression is made of numerals, the marks of the five operators and parentheses. A token keeps
the value of a numeral and not its spelling, so printing a token may not give back what was written.

## Main definitions

* `Token`: a number or a mark.
* `Token.text`: a token printed again.
* `Token.binary?`, `Token.sign?`: the operator or the sign that a token stands for.
* `Token.read?`: the longest token that begins a text.
-/

namespace DeskCalculator

/-- The smallest unit of an expression. -/
inductive Token where
  /-- A numeral, by its value. -/
  | number (value : Float)
  /-- The mark `+`. -/
  | plus
  /-- The mark `-`. -/
  | minus
  /-- The mark `*`. -/
  | star
  /-- The mark `/`. -/
  | slash
  /-- The mark `^`. -/
  | caret
  /-- The mark `(`. -/
  | leftParen
  /-- The mark `)`. -/
  | rightParen
deriving DecidableEq

namespace Token

/-- The token that a single character other than a digit stands for. -/
def ofMark? : Char → Option Token
  | '+' => some plus
  | '-' => some minus
  | '*' => some star
  | '/' => some slash
  | '^' => some caret
  | '(' => some leftParen
  | ')' => some rightParen
  | _ => none

/-- A token printed again; a number by its plain text. -/
def text : Token → String
  | number value => plainText value
  | plus => "+"
  | minus => "-"
  | star => "*"
  | slash => "/"
  | caret => "^"
  | leftParen => "("
  | rightParen => ")"

/-- The operator that a token is between two operands. -/
def binary? : Token → Option BinaryOperator
  | plus => some .add
  | minus => some .subtract
  | star => some .multiply
  | slash => some .divide
  | caret => some .power
  | number _ | leftParen | rightParen => none

/-- The sign that a token is before an operand. -/
def sign? : Token → Option Sign
  | plus => some .plus
  | minus => some .minus
  | _ => none

/-- The operator of a sum that a token is. -/
def sum? (t : Token) : Option BinaryOperator :=
  t.binary?.filter fun op => op = .add || op = .subtract

/-- The operator of a product that a token is. -/
def product? (t : Token) : Option BinaryOperator :=
  t.binary?.filter fun op => op = .multiply || op = .divide

/-- Whether two tokens are alike. Numbers are compared as doubles, so zeros of either sign are
alike and what is not a number is not like itself. -/
def alike : Token → Token → Bool
  | number v, number w => v == w
  | s, t => s = t

/-- The longest token that begins a text, with its spelling and the rest of the text. -/
def read? (source : List Char) : Option (Token × List Char × List Char) :=
  match Numeral.read? source with
  | some (n, rest) => some (number n.value, n.text, rest)
  | none =>
    match source with
    | c :: rest => (ofMark? c).map (·, [c], rest)
    | [] => none

/-- The spelling of a token and what is left make up the text, and the spelling is not empty. -/
theorem append_of_read? {source : List Char} {t : Token} {spelling rest : List Char}
    (h : read? source = some (t, spelling, rest)) : spelling ++ rest = source ∧ spelling ≠ [] := by
  unfold read? at h
  split at h
  · next n more hn =>
    obtain ⟨-, rfl, rfl⟩ := by simpa using h
    exact ⟨Numeral.text_append_of_read? hn, Numeral.text_ne_nil_of_read? hn⟩
  · split at h
    · next c more _ =>
      cases hm : ofMark? c <;> simp [hm] at h
      obtain ⟨-, rfl, rfl⟩ := h
      exact ⟨rfl, by simp⟩
    · cases h

end Token

end DeskCalculator
