import DeskCalculator.Proofs.Grammar.Viable
import DeskCalculator.Proofs.Scan.Row
import Mathlib.Control.Monad.Basic

/-!
# Errors are reported where they begin

An error of an evaluation stands at the first place at which the source stops being the beginning of
an expression. The tokens before it begin a sentence of the grammar. Unless the scanner found the
error, or the nesting, the token at the error is no continuation of them, or the source ends there
and is no sentence. The kind of the error can be read off the tokens before it: it depends on
whether an operand is missing behind them, and on whether a group is open.

## Main definitions

* `pieceAt?`, `tokenAt?`: the piece and the token that start at a byte of a source.
* `IsFirstError`: an error at the first token that goes on with no beginning of a sentence.

## Main results

* `evaluate_error_isFirstError`: the errors of evaluation are reported where they begin.
-/

namespace DeskCalculator

/-- The piece of a source that starts at a byte. -/
def pieceAt? (source : String) (position : Nat) : Option Piece :=
  (pieces source).toList.find? (·.start = position)

/-- The token of a source that starts at a byte. -/
def tokenAt? (source : String) (position : Nat) : Option Token :=
  (pieceAt? source position).bind Piece.token?

/-- An error behind the tokens `ts` of a source is at the first token that goes on with no beginning
of a sentence, and is of the kind that the tokens before it call for. -/
structure IsFirstError (source : String) (ts : List Token) (e : SyntaxError) : Prop where
  /-- With the token at the error no sentence begins, or the source ends before it is one. -/
  breaks : (∃ t, tokenAt? source e.position = some t ∧ ¬ IsViable (ts ++ [t])) ∨
    tokenAt? source e.position = none ∧ e.position = source.utf8ByteSize ∧ ¬ IsSentence ts
  /-- A token is unexpected exactly where an operand is missing. -/
  unexpectedToken_iff : (∃ text, e = .unexpectedToken text e.position) ↔
    AwaitsOperand ts ∧ (tokenAt? source e.position).isSome
  /-- The end is unexpected exactly where an operand is missing. -/
  unexpectedEnd_iff : e = .unexpectedEnd e.position ↔
    AwaitsOperand ts ∧ tokenAt? source e.position = none
  /-- A closing parenthesis is called for exactly behind an operand in a group. -/
  unclosedGroup_iff : e = .unclosedGroup e.position ↔
    EndsOperand ts ∧ ts.count .rightParen < ts.count .leftParen
  /-- A token is extra exactly behind an operand outside of all groups. -/
  trailingToken_iff : (∃ text, e = .trailingToken text e.position) ↔
    EndsOperand ts ∧ ts.count .leftParen = ts.count .rightParen
  /-- The token that an error names is the one at which it stands. -/
  text_eq : ∀ text, e = .unexpectedToken text e.position ∨ e = .trailingToken text e.position →
    (tokenAt? source e.position).map Token.text = some text

variable {source : String} {ps qs : List Piece}

/-- Where some pieces of a source begin, there starts the first of them. -/
theorem pieceAt?_startOf (h : (pieces source).toList = ps ++ qs) :
    pieceAt? source (startOf source.utf8ByteSize qs) = qs.head? := by
  have hrow := inRow_pieces source
  rw [h] at hrow
  rw [pieceAt?, h, hrow.find?_start_eq_startOf]

/-- Tokens that are expected, and behind which a token is not expected, are no beginning of a
sentence together with it. -/
theorem not_isViable_append {ts : List Token} {s : Expectation} {t : Token}
    (hs : (Expectation.operand 0).after ts = some s) (ht : s.step t = none) :
    ¬ IsViable (ts ++ [t]) := by
  rw [isViable_iff_after, Expectation.after_append_of_eq hs, Expectation.after_singleton, ht]
  exact nofun

/-- Tokens behind which more is expected are no sentence. -/
theorem not_isSentence_of_after {ts : List Token} {s : Expectation}
    (hs : (Expectation.operand 0).after ts = some s) (hne : s ≠ .operator 0) : ¬ IsSentence ts := by
  rw [isSentence_iff_after, hs]
  exact fun h ↦ hne (Option.some.inj h)

/-- An obstacle that is neither a stray character nor a nesting too deep is a first error. -/
theorem Obstacle.isFirstError {ts : List Token} {s : Expectation} {e : SyntaxError}
    (h : Obstacle source.utf8ByteSize s qs e) (hpieces : (pieces source).toList = ps ++ qs)
    (hs : (Expectation.operand 0).after ts = some s)
    (hstray : ∀ q ∈ qs.head?, q.token? ≠ none) (hdeep : e ≠ .tooDeep e.position) :
    IsFirstError source ts e := by
  have htoken : tokenAt? source e.position = qs.head?.bind Piece.token? := by
    rw [tokenAt?, h.position_eq, pieceAt?_startOf hpieces]
  have hfits := Expectation.fits_of_after hs
  cases h with
  | stray hq => exact absurd hq (hstray _ rfl)
  | tooDeep => exact absurd rfl hdeep
  | unexpected hq ht =>
    obtain ⟨hawaits, -⟩ := hfits
    have hends := hawaits.not_endsOperand
    rw [List.head?_cons, Option.bind_some, hq] at htoken
    refine ⟨.inl ⟨_, htoken, not_isViable_append hs ht⟩, ?_, ?_, ?_, ?_, ?_⟩ <;>
      simp_all [SyntaxError.position]
  | ended =>
    obtain ⟨hawaits, -⟩ := hfits
    have hends := hawaits.not_endsOperand
    refine ⟨.inr ⟨htoken, rfl, not_isSentence_of_after hs nofun⟩, ?_, ?_, ?_, ?_, ?_⟩ <;>
      simp_all [SyntaxError.position]
  | unclosed hq ht =>
    obtain ⟨hends, hcount⟩ := hfits
    have hawaits : ¬ AwaitsOperand ts := fun h ↦ h.not_endsOperand hends
    rw [List.head?_cons, Option.bind_some, hq] at htoken
    refine ⟨.inl ⟨_, htoken, not_isViable_append hs ht⟩, ?_, ?_, ?_, ?_, ?_⟩ <;>
      simp [SyntaxError.position, hends, hawaits, hcount]
  | unclosedAtEnd =>
    obtain ⟨hends, hcount⟩ := hfits
    have hawaits : ¬ AwaitsOperand ts := fun h ↦ h.not_endsOperand hends
    refine ⟨.inr ⟨htoken, rfl, not_isSentence_of_after hs nofun⟩, ?_, ?_, ?_, ?_, ?_⟩ <;>
      simp [SyntaxError.position, hends, hawaits, hcount]
  | trailing hq ht =>
    obtain ⟨hends, hcount⟩ := hfits
    have hawaits : ¬ AwaitsOperand ts := fun h ↦ h.not_endsOperand hends
    rw [List.head?_cons, Option.bind_some, hq] at htoken
    refine ⟨.inl ⟨_, htoken, not_isViable_append hs ht⟩, ?_, ?_, ?_, ?_, ?_⟩ <;>
      simp_all [SyntaxError.position]

/-- **Errors are reported where they begin.** The pieces before the error of an evaluation are
tokens that begin a sentence. A stray character at the error is what it names. If the error is
neither that nor a nesting too deep, then it is at the first token that goes on with no beginning of
a sentence, or at the end of a source that is none, and its kind follows from the tokens before
it. -/
theorem evaluate_error_isFirstError (lib : Elementary) (source : String) (e : SyntaxError)
    (h : evaluate lib source = .error e) :
    ∃ ts, Spells ((pieces source).toList.filter (·.start < e.position)) ts ∧ IsViable ts ∧
      (∀ p ∈ pieceAt? source e.position, p.token? = none →
        e = .unexpectedToken p.spelling p.start) ∧
      ((∀ p ∈ pieceAt? source e.position, p.token? ≠ none) → e ≠ .tooDeep e.position →
        IsFirstError source ts e) := by
  obtain ⟨ps, ts, s, qs, hpieces, hps, hs, hobstacle⟩ := exists_obstacle_of_evaluateWithin h
  have hrow := inRow_pieces source
  rw [hpieces] at hrow
  have hpiece : pieceAt? source e.position = qs.head? := by
    rw [hobstacle.position_eq, pieceAt?_startOf hpieces]
  rw [hpiece]
  refine ⟨ts, ?_, isViable_iff_after.mpr ⟨s, hs⟩, ?_, ?_⟩
  · rwa [hpieces, hobstacle.position_eq, hrow.filter_start_lt_startOf]
  · exact hobstacle.eq_of_stray
  · exact hobstacle.isFirstError hpieces hs

/-- In `2*(3 4` the second operand stands where the group should go on or be closed. -/
theorem evaluate_error_isFirstError_unclosed :
    ∃ ts, Spells ((pieces "2*(3 4").toList.filter (·.start < 5)) ts ∧ IsViable ts ∧
      IsFirstError "2*(3 4" ts (.unclosedGroup 5) := by
  obtain ⟨ts, hts, hviable, -, hfirst⟩ :=
    evaluate_error_isFirstError .machine "2*(3 4" (.unclosedGroup 5) (by decide +kernel)
  exact ⟨ts, hts, hviable, hfirst (by decide +kernel) nofun⟩

end DeskCalculator
