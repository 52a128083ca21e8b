import DeskCalculator.Proofs.Descent.Reachable
import DeskCalculator.Proofs.Grammar.FirstError
import DeskCalculator.Proofs.Number.PlainText
import DeskCalculator.Proofs.Scan.Joined

/-!
# No operator is left over

Every production takes the operators of its rule as long as there are any. So behind a production
that succeeds the cursor looks at no operator that the rule owns, and behind an expression at none
at all. This holds on every reachable cursor, also where the lookahead is out of step with the
pieces. It restricts two kinds of errors: what is left behind an expression is never an operator,
neither where the source should end nor where a group should be closed.

## Main definitions

* `Cursor.IsGreedy`: what the productions of a cursor leave behind.

## Main results

* `Descent.Run.unclosedGroup_at`: where a run finds a group that is not closed.
* `operators_notLeftOver`: the productions of reachable cursors are greedy, and no error of
  evaluation is about an operator left over.
-/

namespace DeskCalculator

/-! ### Tokens that are no operators -/

/-- A number is printed with a digit or a point, or with a letter. -/
theorem exists_mem_plainText (v : Float) : ∃ c ∈ (plainText v).toList, Token.ofMark? c = none := by
  rw [plainText]
  split
  · exact ⟨'N', by decide, rfl⟩
  · split
    · exact ⟨'i', by simp, rfl⟩
    · have hform := Decimal.wellFormed_numeral (Decimal.shortest (Magnitude.ofFloat v))
      obtain ⟨c, hc⟩ := List.exists_mem_of_ne_nil _ hform.text_ne_nil
      have hdigit := hform.of_mem_text c hc
      rw [Decimal.text_numeral] at hc
      refine ⟨c, by simp [hc], Option.not_isSome_iff_eq_none.mp fun hmark ↦ ?_⟩
      obtain ⟨-, hnondigit, hne⟩ := isSolitary_of_ofMark? hmark
      obtain hdigit | hpoint := hdigit
      · rw [hnondigit] at hdigit
        cases hdigit
      · exact hne hpoint

namespace Token

variable {s t : Token}

theorem binary?_eq_none_iff :
    t.binary? = none ↔ (∃ v, t = .number v) ∨ t = .leftParen ∨ t = .rightParen := by
  cases t <;> simp [binary?]

/-- What an expression does not own is no operator. -/
theorem binary?_of_owns (h : Rule.expression.owns t = false) : t.binary? = none :=
  Option.isNone_iff_eq_none.mp (Option.isSome_eq_false_iff.mp h)

/-- An operator is printed as its mark. -/
theorem exists_mark_of_binary? (h : s.binary?.isSome) :
    ∃ c, s.text = String.singleton c ∧ ofMark? c = some s := by
  cases s with
  | plus => exact ⟨'+', rfl, rfl⟩
  | minus => exact ⟨'-', rfl, rfl⟩
  | star => exact ⟨'*', rfl, rfl⟩
  | slash => exact ⟨'/', rfl, rfl⟩
  | caret => exact ⟨'^', rfl, rfl⟩
  | number v | leftParen | rightParen => cases h

/-- A token that is no operator is not printed as one. -/
theorem text_ne_of_binary? (ht : t.binary? = none) (hs : s.binary?.isSome) : t.text ≠ s.text := by
  obtain ⟨c, htext, hc⟩ := exists_mark_of_binary? hs
  rw [htext]
  intro heq
  have hparen (c' : Char) (hc' : ofMark? c' = some t) (h : t.text = String.singleton c') :
      False := by
    obtain rfl : c' = c := String.singleton_inj.mp (h.symm.trans heq)
    obtain rfl := Option.some.inj (hc'.symm.trans hc)
    rw [ht] at hs
    cases hs
  cases t with
  | number v =>
    obtain ⟨c', hmem, hnone⟩ := exists_mem_plainText v
    rw [show plainText v = String.singleton c from heq, String.toList_singleton,
      List.mem_singleton] at hmem
    rw [hmem, hc] at hnone
    cases hnone
  | leftParen => exact hparen '(' rfl rfl
  | rightParen => exact hparen ')' rfl rfl
  | plus | minus | star | slash | caret => cases ht

end Token

/-! ### Behind the productions of a cursor -/

namespace Descent

variable {lib : Elementary} {limit? : Option Nat} {task : Task} {c : Cursor} {es : List Event}
  {r : Outcome}

/-- A group that is not closed is found where the cursor then stands, and the cursor looks there at
nothing that goes on with an expression or closes a group. -/
theorem Run.unclosedGroup_at (h : Run lib limit? task c es r) :
    ∀ p d, r = .error (.unclosedGroup p) d → p = d.position ∧ d.peek ≠ some .rightParen ∧
      ∀ t, d.peek = some t → t.binary? = none := by
  induction h with
  | refused | unexpected | missing | number | group | unraised | finished => exact nofun
  | group_stray _ _ _ _ he | stray _ _ he =>
    rintro p d ⟨⟩
    obtain ⟨q, qs, -, -, hstray⟩ := Cursor.stray_of_advance_error he
    cases hstray
  | factor _ _ ih =>
    intro p d hr
    obtain ⟨d', rfl, rfl⟩ := closeLevel_eq_error_iff.mp hr
    exact ih p d' rfl
  | signed _ _ _ _ ih | raised _ _ _ ih =>
    intro p d hr
    exact ih p d (mapValue_eq_error_iff.mp hr)
  | unsigned_error _ _ ih | group_error _ _ _ ih | chain_error _ ih | step_error _ _ _ _ ih
  | unsigned _ _ _ _ ih | chain _ _ _ ih | step _ _ _ _ _ _ ih => exact ih
  | unclosed _ _ hinner hclose =>
    rintro p d ⟨⟩
    refine ⟨rfl, hclose, fun t ht ↦ ?_⟩
    exact Token.binary?_of_owns (hinner.owns_eq_false trivial _ _ rfl t ht)

end Descent

namespace Cursor

/-- What the productions of a cursor leave behind: no operator of their rules where they succeed,
and none at all where they find a group that is not closed. -/
structure IsGreedy (lib : Elementary) (c : Cursor) : Prop where
  /-- Behind a factor there is no exponent. -/
  behind_factor : ∀ v d, c.factor lib = .ok v d → d.peek ≠ some .caret
  /-- Behind a term there is no exponent, and no further operator of products. -/
  behind_term : ∀ v d, c.term lib = .ok v d →
    d.peek ≠ some .star ∧ d.peek ≠ some .slash ∧ d.peek ≠ some .caret
  /-- Behind an expression there is no operator. -/
  behind_expression : ∀ v d, c.expression lib = .ok v d →
    d.peek = none ∨ (∃ w, d.peek = some (.number w)) ∨ d.peek = some .leftParen ∨
      d.peek = some .rightParen
  /-- A group that is not closed is found at the end of the source, at a number, or at another
  group. -/
  unclosed : ∀ f ∈ productions lib, ∀ p d, f c = .error (.unclosedGroup p) d →
    p = d.position ∧
      (d.peek = none ∨ (∃ w, d.peek = some (.number w)) ∨ d.peek = some .leftParen)

variable {lib : Elementary} {source : String} {c d : Cursor} {v : Float}

/-- Behind a production that succeeds, the lookahead is no operator which its rule owns. -/
theorem owns_of_production_ok (hc : c.Settled) {r : Rule}
    (h : r.production lib (Expression.factorWithin lib (some nestingLimit) c) c = .ok v d)
    {t : Token} (ht : d.peek = some t) : r.owns t = false := by
  obtain ⟨es, hrun⟩ := Descent.exists_run_of_settled lib (some nestingLimit) r hc
  exact hrun.owns_eq_false trivial v d h t ht

/-- The productions of a settled cursor are greedy. -/
theorem Settled.isGreedy (hc : c.Settled) : c.IsGreedy lib where
  behind_factor v d h hpeek := by
    cases owns_of_production_ok (r := .factor) hc h hpeek
  behind_term v d h := by
    refine ⟨fun hpeek ↦ ?_, fun hpeek ↦ ?_, fun hpeek ↦ ?_⟩ <;>
      cases owns_of_production_ok (r := .term) hc h hpeek
  behind_expression v d h := by
    cases hpeek : d.peek with
    | none => exact .inl rfl
    | some t =>
      have ht := Token.binary?_of_owns (owns_of_production_ok (r := .expression) hc h hpeek)
      simpa using Token.binary?_eq_none_iff.mp ht
  unclosed f hf p d h := by
    obtain ⟨r, -, hr⟩ := exists_rule_of_mem_productions hf
    obtain ⟨es, hrun⟩ := Descent.exists_run_of_settled lib (some nestingLimit) r hc
    rw [← hr c] at hrun
    obtain ⟨hposition, hclose, hbinary⟩ := hrun.unclosedGroup_at p d h
    refine ⟨hposition, ?_⟩
    cases hpeek : d.peek with
    | none => exact .inl rfl
    | some t =>
      obtain ⟨w, rfl⟩ | rfl | rfl := Token.binary?_eq_none_iff.mp (hbinary t hpeek)
      · exact .inr (.inl ⟨w, rfl⟩)
      · exact .inr (.inr rfl)
      · exact absurd hpeek hclose

end Cursor

/-! ### The errors of evaluation -/

variable {lib : Elementary} {source : String} {e : SyntaxError} {p : Nat}

/-- An evaluation fails at an obstacle, and the token at the error is the one that is ahead. -/
theorem exists_obstacle_of_evaluate (h : evaluate lib source = .error e) :
    ∃ s qs, Obstacle source.utf8ByteSize s qs e ∧
      tokenAt? source e.position = qs.head?.bind Piece.token? := by
  obtain ⟨ps, ts, s, qs, hpieces, -, -, hobstacle⟩ := exists_obstacle_of_evaluateWithin h
  refine ⟨s, qs, hobstacle, ?_⟩
  rw [tokenAt?, hobstacle.position_eq, pieceAt?_startOf hpieces]

/-- What is extra behind an expression is a token that is no operator. -/
theorem binary?_of_trailingToken {text : String}
    (h : evaluate lib source = .error (.trailingToken text p)) :
    ∃ t, tokenAt? source p = some t ∧ text = t.text ∧ t.binary? = none := by
  obtain ⟨s, qs, hobstacle, htoken⟩ := exists_obstacle_of_evaluate h
  cases hobstacle with
  | @trailing q _ t hq ht =>
    refine ⟨t, htoken.trans hq, rfl, ?_⟩
    cases t with
    | number v | leftParen | rightParen => rfl
    | plus | minus | star | slash | caret => cases ht

/-- A group that is not closed is found at the end of the source, at a number, or at another
group. -/
theorem tokenAt?_of_unclosedGroup (h : evaluate lib source = .error (.unclosedGroup p)) :
    p = source.utf8ByteSize ∧ tokenAt? source p = none ∨
      (∃ w, tokenAt? source p = some (.number w)) ∨ tokenAt? source p = some .leftParen := by
  obtain ⟨s, qs, hobstacle, htoken⟩ := exists_obstacle_of_evaluate h
  cases hobstacle with
  | unclosedAtEnd => exact .inl ⟨rfl, htoken⟩
  | @unclosed k q _ t hq ht =>
    have htoken := htoken.trans hq
    cases t with
    | number v => exact .inr (.inl ⟨v, htoken⟩)
    | leftParen => exact .inr (.inr htoken)
    | plus | minus | star | slash | caret | rightParen => cases ht

/-- **No operator is left over.** On every reachable cursor, also behind earlier failures, a
production that succeeds leaves no operator of its rule behind, and an expression leaves none at
all. So what is extra behind the expression of a source is never an operator, and it is not printed
as one. A group that is not closed is found at the end of the source, at a number, or at another
group. -/
theorem operators_notLeftOver (lib : Elementary) (source : String) :
    (∀ c : Cursor, c.Reachable lib source → c.IsGreedy lib) ∧
    (∀ text p, evaluate lib source = .error (.trailingToken text p) →
      ∃ t, tokenAt? source p = some t ∧ text = t.text ∧ t.binary? = none ∧
        ∀ s : Token, s.binary?.isSome → text ≠ s.text) ∧
    ∀ p, evaluate lib source = .error (.unclosedGroup p) →
      p = source.utf8ByteSize ∧ tokenAt? source p = none ∨
        (∃ w, tokenAt? source p = some (.number w)) ∨ tokenAt? source p = some .leftParen := by
  refine ⟨fun c hc ↦ hc.settled.isGreedy, fun text p h ↦ ?_, fun p ↦ tokenAt?_of_unclosedGroup⟩
  obtain ⟨t, htoken, rfl, ht⟩ := binary?_of_trailingToken h
  exact ⟨t, htoken, rfl, ht, fun s hs ↦ Token.text_ne_of_binary? ht hs⟩

/-- Behind a step over a stray character, a term takes all factors and stops at a number. -/
theorem operators_notLeftOver_stray : ∃ c : Cursor, c.Reachable .machine "2 $ *3 4^5" ∧
    c.next = 2 ∧ c.peek = some (.number 2) ∧ (Cursor.term .machine).run' c = some 6 ∧
      (cursorBehind (c.term .machine)).peek = some (.number 4) ∧ c.IsGreedy .machine := by
  have hstart : Cursor.Reachable .machine "2 $ *3 4^5"
      ⟨pieces "2 $ *3 4^5", 10, 1, some (.number 2, 0), 0⟩ := .new (by decide +kernel)
  have hreachable := hstart.perform .advance
  exact ⟨_, hreachable, by decide +kernel, by decide +kernel, by decide +kernel,
    by decide +kernel, (operators_notLeftOver .machine "2 $ *3 4^5").1 _ hreachable⟩

end DeskCalculator
