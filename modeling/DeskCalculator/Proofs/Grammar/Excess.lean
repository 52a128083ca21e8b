import DeskCalculator.Proofs.Descent.Behind
import DeskCalculator.Proofs.Grammar.Alphabet
import DeskCalculator.Proofs.Grammar.Obstacle

/-!
# What comes behind a complete expression

A source with a value can be spoiled by what is joined to it. A character of no token is stray, and
so is found where it stands. A parenthesis cannot go on with an expression that is complete. An
operator can, and at the end of the source its right operand is missing. Where the source ends all
groups are closed and all levels of nesting are free again, so the error does not depend on what the
source is made of, and it is never one of the nesting.

## Main results

* `pieces_append_solitary`: the pieces of a source with a character of its own behind it.
* `evaluateWithin_append_stray`, `evaluateWithin_append_paren`, `evaluateWithin_append_operator`:
  the three kinds of errors, under any limit on the nesting.
* `evaluate_append_of_ok`: what follows a complete expression is diagnosed.
-/

namespace DeskCalculator

variable {lib : Elementary} {limit? : Option Nat} {source : String} {ps rest : List Piece}
  {e : SyntaxError} {v : Float} {c : Char}

/-! ### Sources that go on behind a derivation -/

/-- A source fails as the descent does in front of the derivation with which it begins. -/
theorem evaluateWithin_of_failsBefore (der : Derivation .expression)
    (hpieces : (pieces source).toList = ps ++ rest) (hs : Spells ps der.tokens)
    (hn : ∀ m ∈ limit?, der.nesting ≤ m)
    (h : Descent.FailsBefore lib limit? source.utf8ByteSize .expression rest e) :
    evaluateWithin limit? lib source = .error e := by
  obtain ⟨c, hsource, hstep, hahead, hlevels, hextent⟩ := exists_ofSource_of_spells der hpieces hs
  obtain ⟨es, d, hrun⟩ := h der hstep hextent hahead hs (by rwa [hlevels])
  rw [Descent.evaluateWithin_eq_verdict hsource hrun, Descent.verdict]

/-- A source that does not go on with its expression has a token too many. -/
theorem evaluateWithin_of_stopsBefore {q : Piece} {qs : List Piece} {t : Token}
    (der : Derivation .expression) (hpieces : (pieces source).toList = ps ++ q :: qs)
    (hs : Spells ps der.tokens) (hn : ∀ m ∈ limit?, der.nesting ≤ m) (hq : q.token? = some t)
    (ht : Rule.expression.owns t = false) :
    evaluateWithin limit? lib source = .error (.trailingToken t.text q.start) := by
  obtain ⟨c, hsource, hstep, hahead, hlevels, -⟩ := exists_ofSource_of_spells der hpieces hs
  obtain ⟨es, d, hrun, hstep', hahead'⟩ : ∃ es d, Descent.Run lib limit? _ c es
      (.ok (der.value lib) d) ∧ d.InStep ∧ d.ahead = q :: qs :=
    Descent.exists_run_derivation der hstep hahead hs
      (Descent.stopsBefore_cons hq ht) (by rwa [hlevels])
  have hpeek : d.peek = some t := by rw [hstep'.peek_eq, hahead']; exact hq
  have hposition : d.position = q.start := by rw [hstep'.position_eq, hahead']; rfl
  rw [Descent.evaluateWithin_eq_verdict hsource hrun, Descent.verdict]
  simp only [hpeek, hposition]

/-! ### Joining a character -/

/-- The pieces of a source with a character of its own behind it, whatever follows. -/
theorem pieces_append_solitary (h : IsSolitary c) (source more : String) :
    (pieces (source ++ String.singleton c ++ more)).toList =
      (pieces source).toList ++ ⟨Token.ofMark? c, String.singleton c, source.utf8ByteSize⟩ ::
        scan (source.utf8ByteSize + c.utf8Size) more.toList := by
  have htext : (source ++ String.singleton c ++ more).toList =
      source.toList ++ c :: more.toList := by
    simp [String.toList_append]
  rw [toList_pieces, htext, scan_append (h.endsNumeral _), scan_solitary h, String.ofList_toList,
    Nat.zero_add, ← String.singleton_eq_ofList, toList_pieces]

theorem isSolitary_of_not_isLexical (h : ¬ IsLexical c) : IsSolitary c := by
  simp only [IsLexical, not_or] at h
  exact ⟨h.1, by simpa using h.2.1, h.2.2.1⟩

theorem ofMark?_of_not_isLexical (h : ¬ IsLexical c) : Token.ofMark? c = none := by
  simp only [IsLexical, not_or] at h
  simpa using h.2.2.2

/-- A character of no token is found behind a source with a value. -/
theorem evaluateWithin_append_stray (h : evaluateWithin limit? lib source = .ok v)
    (hc : ¬ IsLexical c) (more : String) :
    evaluateWithin limit? lib (source ++ String.singleton c ++ more) =
      .error (.unexpectedToken (String.singleton c) source.utf8ByteSize) := by
  obtain ⟨der, hs, hn, -⟩ := exists_derivation_of_evaluateWithin h
  have hpieces := pieces_append_solitary (isSolitary_of_not_isLexical hc) source more
  exact evaluateWithin_of_failsBefore der hpieces hs hn
    (Descent.failsBefore_stray (ofMark?_of_not_isLexical hc))

/-- A mark that does not go on with an expression is found behind a source with a value. -/
theorem evaluateWithin_append_mark {t : Token} (h : evaluateWithin limit? lib source = .ok v)
    (hc : Token.ofMark? c = some t) (ht : Rule.expression.owns t = false) (more : String) :
    evaluateWithin limit? lib (source ++ String.singleton c ++ more) =
      .error (.trailingToken t.text source.utf8ByteSize) := by
  obtain ⟨der, hs, hn, -⟩ := exists_derivation_of_evaluateWithin h
  have hsolitary : IsSolitary c := isSolitary_of_ofMark? (by rw [hc, Option.isSome_some])
  exact evaluateWithin_of_stopsBefore der (pieces_append_solitary hsolitary source more) hs hn hc ht

/-- An operator of a chain at the end of a source that had a value has no right operand. -/
theorem evaluateWithin_append_operator {t : Token} {l : Level} {op : BinaryOperator}
    (h : evaluateWithin limit? lib source = .ok v) (hc : Token.ofMark? c = some t)
    (ht : l.operator? t = some op) :
    evaluateWithin limit? lib (source ++ String.singleton c) =
      .error (.unexpectedEnd (source.utf8ByteSize + c.utf8Size)) := by
  obtain ⟨der, hs, hn, -⟩ := exists_derivation_of_evaluateWithin h
  have hsolitary : IsSolitary c := isSolitary_of_ofMark? (by rw [hc, Option.isSome_some])
  have hpieces := pieces_append_solitary hsolitary source ""
  rw [String.append_empty, String.toList_empty, scan_nil] at hpieces
  refine evaluateWithin_of_failsBefore der hpieces hs hn ?_
  rw [String.utf8ByteSize_append, String.utf8ByteSize_singleton]
  exact Descent.failsBefore_operator_expression hc ht

/-- **What follows a complete expression is diagnosed exactly.** Behind a source with a value, a
character that is neither a space nor part of a token is unexpected at the byte where the source has
ended, and a parenthesis is one token too many there, whatever comes after them. Behind an operator
of sums or products at the end the source ends unexpectedly. No nesting of the source is too deep
for that. -/
theorem evaluate_append_of_ok (lib : Elementary) (source : String) (v : Float)
    (h : evaluate lib source = .ok v) :
    (∀ c more, ¬ IsLexical c → evaluate lib (source ++ String.singleton c ++ more) =
      .error (.unexpectedToken (String.singleton c) source.utf8ByteSize)) ∧
    (∀ paren ∈ [")", "("], ∀ more, evaluate lib (source ++ paren ++ more) =
      .error (.trailingToken paren source.utf8ByteSize)) ∧
    (∀ operator ∈ ["+", "-", "*", "/"], evaluate lib (source ++ operator) =
      .error (.unexpectedEnd (source.utf8ByteSize + 1))) := by
  refine ⟨fun c more hc ↦ evaluateWithin_append_stray h hc more, fun paren hparen more ↦ ?_,
    fun operator hoperator ↦ ?_⟩
  · simp only [List.mem_cons, List.not_mem_nil, or_false] at hparen
    obtain rfl | rfl := hparen
    · exact evaluateWithin_append_mark (c := ')') h rfl rfl more
    · exact evaluateWithin_append_mark (c := '(') h rfl rfl more
  · simp only [List.mem_cons, List.not_mem_nil, or_false] at hoperator
    obtain rfl | rfl | rfl | rfl := hoperator
    · exact evaluateWithin_append_operator (l := .sum) (c := '+') h rfl rfl
    · exact evaluateWithin_append_operator (l := .sum) (c := '-') h rfl rfl
    · exact evaluateWithin_append_operator (l := .product) (c := '*') h rfl rfl
    · exact evaluateWithin_append_operator (l := .product) (c := '/') h rfl rfl

/-- Behind `(2)` a letter of two bytes, a parenthesis and an operator are found at the fourth
byte. -/
theorem evaluate_append_of_ok_group :
    evaluate .machine "(2)" = .ok 2 ∧ ¬ IsLexical 'é' ∧
      evaluate .machine "(2)é*(" = .error (.unexpectedToken "é" 3) ∧
      evaluate .machine "(2)(é" = .error (.trailingToken "(" 3) ∧
      evaluate .machine "(2)*" = .error (.unexpectedEnd 4) := by
  have h : evaluate .machine "(2)" = .ok 2 := by decide +kernel
  have hc : ¬ IsLexical 'é' := by simp [IsLexical, isSome_ofMark?_iff]
  obtain ⟨hstray, hparen, hoperator⟩ := evaluate_append_of_ok .machine "(2)" 2 h
  exact ⟨h, hc, hstray 'é' "*(" hc, hparen "(" (by decide) "é", hoperator "*" (by decide)⟩

end DeskCalculator
