import DeskCalculator.Proofs.Grammar.Exchange
import DeskCalculator.Proofs.Grammar.LiteralSource
import DeskCalculator.Proofs.Keypad.Domain

/-!
# Function keys and the formulas that they stand for

The keys for the square and for the reciprocal read their input in another way than it is read in an
expression. Where both ways are possible the input is a numeral with a sign or without one, and so
the formula with the input between parentheses has a derivation whose value is that of the key. Only
at a zero do they differ: the key refuses it, and the formula is infinite.

## Main definitions

* `Derivation.ofOperator`: two primaries with an operator of products between them.

## Main results

* `exists_derivation_of_operandOf`: an input that is also an expression has a small derivation.
* `evaluate_product`, `evaluate_quotient`: the formulas in which an input is squared and divided by.
* `calculate_eq_formula`: the keys agree with the formulas.
-/

namespace DeskCalculator

variable {lib : Elementary} {source : String} {v w : Float}

/-! ### The derivation of a formula -/

/-- Two primaries with an operator of products between them. -/
def Derivation.ofOperator (mark : Token) (op : BinaryOperator)
    (h : Level.product.operator? mark = some op) (left right : Derivation .primary) :
    Derivation .expression :=
  .chain .sum (.chain .product (.plain left) (.step .product mark op h (.plain right) (.done _)))
    (.done _)

section Operator

variable {mark : Token} {op : BinaryOperator} (h : Level.product.operator? mark = some op)
  (left right : Derivation .primary)

theorem Derivation.tokens_ofOperator :
    (ofOperator mark op h left right).tokens = left.tokens ++ mark :: right.tokens := by
  simp [ofOperator, Derivation.tokens, Continuation.tokens]

theorem Derivation.value_ofOperator : (ofOperator mark op h left right).value lib =
    op.apply lib (left.value lib) (right.value lib) := by
  simp [ofOperator, Derivation.value, Continuation.value]

theorem Derivation.nesting_ofOperator :
    (ofOperator mark op h left right).nesting = max left.nesting right.nesting + 1 := by
  simp [ofOperator, Derivation.nesting, Continuation.nesting]

end Operator

/-- What is read as an expression and as an input has a derivation with the value of the input, and
at most two factors nested in it. -/
theorem exists_derivation_of_operandOf (hv : evaluate lib source = .ok v)
    (hw : operandOf source = .ok w) : ∃ d : Derivation .expression,
      Spells (pieces source).toList d.tokens ∧ d.nesting ≤ 2 ∧ d.value lib = w := by
  obtain ⟨s, hform, htext⟩ := exists_spacedNumeral hv hw
  obtain rfl : String.ofList s.text = source := by rw [htext, String.ofList_toList]
  obtain rfl := Except.ok.inj ((SpacedNumeral.operandOf_text hform).symm.trans hw)
  have hnesting := Derivation.nesting_ofNumber_le s.numeral.value s.sign?
  refine ⟨(Derivation.ofNumber s.numeral.value s.sign?).ofFactor, ?_, ?_, ?_⟩
  · rw [Derivation.tokens_ofFactor, Derivation.tokens_ofNumber, toList_pieces, ← htext]
    exact SpacedNumeral.spells_text hform 0
  · exact Nat.max_le.mpr ⟨Nat.max_le.mpr ⟨hnesting, Nat.zero_le _⟩, Nat.zero_le _⟩
  · exact Derivation.value_ofNumber lib s.numeral.value s.sign?

/-- A source that spells two primaries with an operator of products between them has the value of
the operator, unless the primaries are nested too deeply. -/
theorem evaluate_of_ofOperator {mark : Token} (op : BinaryOperator)
    (h : Level.product.operator? mark = some op) (left right : Derivation .primary)
    (hs : Spells (pieces source).toList (left.tokens ++ mark :: right.tokens))
    (hleft : left.nesting < nestingLimit) (hright : right.nesting < nestingLimit) :
    evaluate lib source = .ok (op.apply lib (left.value lib) (right.value lib)) := by
  rw [← Derivation.tokens_ofOperator h] at hs
  rw [← Derivation.value_ofOperator h]
  refine evaluateWithin_of_derivation _ hs ?_
  rintro m ⟨⟩
  rw [Derivation.nesting_ofOperator]
  exact Nat.max_lt.mpr ⟨hleft, hright⟩

/-! ### The values of the formulas -/

section Formulas

variable {d : Derivation .expression}

theorem spells_pieces_empty : Spells (pieces "").toList [] := by rw [Spells]; decide +kernel

/-- A source between parentheses, multiplied with itself. -/
theorem evaluate_product (lib : Elementary) (hs : Spells (pieces source).toList d.tokens)
    (hn : d.nesting < nestingLimit) :
    evaluate lib ("(" ++ source ++ ")*(" ++ source ++ ")") =
      .ok (d.value lib * d.value lib) := by
  have htext : "(" ++ source ++ ")*(" ++ source ++ ")" =
      "" ++ "(" ++ source ++ ")" ++ ("*" ++ "(" ++ source ++ ")" ++ "") := by
    rw [← String.toList_inj]
    simp
  have hstar : Spells (pieces "*").toList [.star] := by rw [Spells]; decide +kernel
  have hspells := spells_pieces_parenthesised spells_pieces_empty hs
    (spells_pieces_parenthesised hstar hs spells_pieces_empty)
  rw [← htext, List.append_nil, List.nil_append, List.singleton_append] at hspells
  exact evaluate_of_ofOperator .multiply rfl (.group d) (.group d) hspells hn hn

/-- One divided by a source between parentheses. -/
theorem evaluate_quotient (lib : Elementary) (hs : Spells (pieces source).toList d.tokens)
    (hn : d.nesting < nestingLimit) :
    evaluate lib ("1/(" ++ source ++ ")") = .ok (1 / d.value lib) := by
  have htext : "1/(" ++ source ++ ")" = "1/" ++ "(" ++ source ++ ")" ++ "" := by
    rw [← String.toList_inj]
    simp
  have hone : Spells (pieces "1/").toList [.number 1, .slash] := by rw [Spells]; decide +kernel
  have hspells := spells_pieces_parenthesised hone hs spells_pieces_empty
  rw [← htext, List.append_nil] at hspells
  exact evaluate_of_ofOperator .divide rfl (.number 1) (.group d) hspells (by decide) hn

end Formulas

/-! ### Keys and formulas -/

theorem calculate_of_evaluate (h : evaluate lib source = .ok v) :
    calculate lib source = ensureFinite v := by
  rw [calculate, h]
  rfl

/-- **The function keys agree with the formulas that they stand for.** If a source has a value as
an expression and as an input, then the square of the input has the same outcome as the formula in
which the source is multiplied with itself, and the reciprocal the same as one divided by the
source. Only at a zero of either sign the key is undefined and the formula is infinite, which is
shown alike. -/
theorem calculate_eq_formula (lib : Elementary) (source : String) (v w : Float)
    (hv : evaluate lib source = .ok v) (hw : operandOf source = .ok w) :
    FunctionKey.square.calculate lib source =
      calculate lib ("(" ++ source ++ ")*(" ++ source ++ ")") ∧
    (Magnitude.ofFloat w ≠ 0 →
      FunctionKey.reciprocal.calculate lib source = calculate lib ("1/(" ++ source ++ ")")) ∧
    (Magnitude.ofFloat w = 0 →
      FunctionKey.reciprocal.calculate lib source = .error (.undefinedValue .zeroReciprocal) ∧
      (∃ x, calculate lib ("1/(" ++ source ++ ")") = .error (.notFinite x) ∧
        x.isInf = true) ∧
      shown (FunctionKey.reciprocal.calculate lib source) = "Error" ∧
      shown (calculate lib ("1/(" ++ source ++ ")")) = "Error") := by
  obtain ⟨d, hs, hn, rfl⟩ := exists_derivation_of_operandOf hv hw
  have hnesting : d.nesting < nestingLimit := Nat.lt_of_le_of_lt hn (by decide)
  have hproduct := calculate_of_evaluate (evaluate_product lib hs hnesting)
  have hquotient := calculate_of_evaluate (evaluate_quotient lib hs hnesting)
  rw [hproduct, hquotient]
  refine ⟨FunctionKey.calculate_of_operandOf hw, fun hne ↦ ?_, fun hzero ↦ ?_⟩
  · have hdomain : FunctionKey.reciprocal.domainError? (d.value lib) = none := by
      simpa [FunctionKey.domainError?, ← beq_zero_iff] using hne
    rw [FunctionKey.calculate_of_operandOf hw, hdomain]
    rfl
  · have hkey : FunctionKey.reciprocal.calculate lib source =
        .error (.undefinedValue .zeroReciprocal) :=
      (FunctionKey.calculate_reciprocal_undefined_iff hw).mpr hzero
    have hinf := isInf_one_div hzero
    have hformula : ensureFinite (1 / d.value lib) = .error (.notFinite (1 / d.value lib)) :=
      ensureFinite_eq_error_iff.mpr ⟨isFinite_eq_false_of_isInf hinf, rfl⟩
    rw [hkey, hformula]
    exact ⟨rfl, ⟨_, rfl, hinf⟩, rfl, rfl⟩

/-- At `-4` the keys agree with the formulas, and at `-0` the reciprocal is refused in either
way. -/
theorem calculate_eq_formula_negative :
    FunctionKey.square.calculate .machine "-4" = calculate .machine "(-4)*(-4)" ∧
      FunctionKey.reciprocal.calculate .machine "-4" = calculate .machine "1/(-4)" ∧
      FunctionKey.reciprocal.calculate .machine "-0" = .error (.undefinedValue .zeroReciprocal) ∧
      shown (calculate .machine "1/(-0)") = "Error" := by
  have hv : evaluate .machine "-4" = .ok (-4) := by decide +kernel
  have hw : operandOf "-4" = .ok (-4) := by decide +kernel
  have hv' : evaluate .machine "-0" = .ok (-0) := by decide +kernel
  have hw' : operandOf "-0" = .ok (-0) := by decide +kernel
  obtain ⟨hsquare, hreciprocal, -⟩ := calculate_eq_formula .machine "-4" _ _ hv hw
  obtain ⟨-, -, hzero⟩ := calculate_eq_formula .machine "-0" _ _ hv' hw'
  obtain ⟨hkey, -, -, hshown⟩ := hzero (by decide +kernel)
  exact ⟨hsquare, hreciprocal (by decide +kernel), hkey, hshown⟩

end DeskCalculator
