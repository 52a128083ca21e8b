import DeskCalculator.Proofs.Descent.NestingLimit
import DeskCalculator.Proofs.Grammar.Obstacle

/-!
# Beginnings of expressions

The expectations tell apart the sentences of the grammar and their beginnings. A token sequence is a
sentence when each of its tokens is expected and an operator is expected at its end, outside of all
groups; it is the beginning of a sentence when each of its tokens is expected. That expected tokens
make up a derivation is shown by descending over them: the run comes to no obstacle, so that it
succeeds and uses up the tokens.

## Main definitions

* `IsViable`: the beginnings of the token sequences of expressions.
* `Cursor.overTokens`: a cursor over pieces that are given tokens.

## Main results

* `isSentence_iff_after`: sentences by what is expected behind them.
* `isViable_iff_after`: beginnings of sentences by what is expected behind them.
-/

namespace DeskCalculator

/-- The token sequences that begin the token sequence of an expression. -/
def IsViable (ts : List Token) : Prop := ∃ us, IsSentence (ts ++ us)

/-- A cursor that looks at the first of some tokens, all of which stand at the first byte. -/
def Cursor.overTokens (ts : List Token) : Cursor where
  pieces := (ts.map fun t ↦ ⟨some t, t.text, 0⟩).toArray
  extent := 0
  next := 1
  lookahead? := ts.head?.map (·, 0)
  openLevels := 0

theorem Cursor.ahead_overTokens (ts : List Token) :
    (overTokens ts).ahead = ts.map fun t ↦ ⟨some t, t.text, 0⟩ := rfl

theorem Cursor.inStep_overTokens (ts : List Token) : (overTokens ts).InStep := by
  refine ⟨Nat.one_pos, fun hnil ↦ ?_, fun p ps hcons ↦ ?_⟩
  · rw [ahead_overTokens, List.map_eq_nil_iff] at hnil
    rw [hnil]
    rfl
  · rw [ahead_overTokens, List.map_eq_cons_iff] at hcons
    obtain ⟨t, us, rfl, rfl, -⟩ := hcons
    exact ⟨t, rfl, rfl⟩

theorem Cursor.spells_overTokens (ts : List Token) : Spells (overTokens ts).ahead ts := by
  rw [ahead_overTokens, Spells, List.map_map]
  rfl

/-- Behind an obstacle, other than a nesting too deep, no tokens complete an expression. -/
theorem Obstacle.after_ne {extent : Nat} {s : Expectation} {qs : List Piece} {e : SyntaxError}
    {us : List Token} (h : Obstacle extent s qs e) (hdeep : e ≠ .tooDeep e.position)
    (hus : Spells qs us) : s.after us ≠ some (.operator 0) := by
  cases h with
  | stray hq =>
    obtain ⟨t, vs, rfl, ht, -⟩ := hus.exists_cons
    rw [hq] at ht
    cases ht
  | unexpected hq hstep | unclosed hq hstep | trailing hq hstep =>
    obtain ⟨t, vs, rfl, ht, -⟩ := hus.exists_cons
    obtain rfl := Option.some.inj (hq.symm.trans ht)
    rw [Expectation.after_cons, hstep]
    exact nofun
  | ended | unclosedAtEnd =>
    obtain rfl : us = [] := List.map_eq_nil_iff.mp hus.symm
    rw [Expectation.after_nil]
    exact nofun
  | tooDeep => exact absurd rfl hdeep

/-- Tokens that are all expected, with an operator expected at their end and no group open, are
those of an expression. -/
theorem isSentence_of_after {ts : List Token}
    (h : (Expectation.operand 0).after ts = some (.operator 0)) : IsSentence ts := by
  have hstep := Cursor.inStep_overTokens ts
  have hspells := Cursor.spells_overTokens ts
  obtain ⟨es, hrun⟩ := Descent.exists_run_of_settled .machine none .expression hstep.settled
  generalize Rule.production _ _ .expression (Cursor.overTokens ts) = r at hrun
  cases r with
  | error e d =>
    obtain ⟨ps, us, s, qs, hahead, hps, hus, hobstacle⟩ :=
      hrun.failsFrom hstep trivial 0 e d rfl
    obtain ⟨vs, rfl, hqs⟩ := hps.exists_append (hahead ▸ hspells)
    rw [Descent.Task.expectation] at hus
    rw [Expectation.after_append_of_eq hus] at h
    refine absurd h (hobstacle.after_ne (fun hdeep ↦ ?_) hqs)
    rw [hdeep] at hrun
    exact hrun.ne_tooDeep _ d rfl
  | ok v d =>
    obtain ⟨hd, us, n, ⟨ps, hahead, hps⟩, ⟨der, rfl, -⟩, -⟩ := hrun.sound hstep v d rfl
    obtain ⟨vs, rfl, hvs⟩ := hps.exists_append (hahead ▸ hspells)
    rw [Expectation.after_append_of_eq (der.after_tokens 0)] at h
    cases vs with
    | nil => exact ⟨der, (List.append_nil _).symm⟩
    | cons t vs =>
      -- The run has left no operator behind it, so that its last tokens are not expected.
      obtain ⟨p, qs, hrest, hp, -⟩ := spells_cons_iff.mp hvs
      have hpeek : d.peek = some t := by
        rw [hd.peek_eq, hrest, List.head?_cons, Option.bind_some, hp]
      have howns := hrun.owns_eq_false trivial v d rfl t hpeek
      rw [Expectation.after_cons, Expectation.step_operator_zero_eq_none howns] at h
      cases h

/-- The sentences, by what is expected behind their tokens. -/
theorem isSentence_iff_after {ts : List Token} :
    IsSentence ts ↔ (Expectation.operand 0).after ts = some (.operator 0) := by
  refine ⟨?_, isSentence_of_after⟩
  rintro ⟨d, rfl⟩
  exact d.after_tokens 0

/-- Closing the open groups leads out of them. -/
theorem Expectation.after_replicate_rightParen (k : Nat) :
    (operator k).after (List.replicate k .rightParen) = some (.operator 0) := by
  induction k with
  | zero => rfl
  | succ k ih =>
    rw [List.replicate_succ, after_cons]
    exact ih

/-- From every expectation there are tokens that complete an expression. -/
theorem Expectation.exists_completion (s : Expectation) :
    ∃ us, s.after us = some (.operator 0) := by
  cases s with
  | operand k =>
    refine ⟨.number 0 :: List.replicate k .rightParen, ?_⟩
    rw [after_cons]
    exact after_replicate_rightParen k
  | operator k => exact ⟨_, after_replicate_rightParen k⟩

/-- The beginnings of sentences, by what is expected behind them. -/
theorem isViable_iff_after {ts : List Token} :
    IsViable ts ↔ ∃ s, (Expectation.operand 0).after ts = some s := by
  constructor
  · rintro ⟨us, hus⟩
    rw [isSentence_iff_after, Expectation.after_append, Option.bind_eq_some_iff] at hus
    obtain ⟨s, hs, -⟩ := hus
    exact ⟨s, hs⟩
  · rintro ⟨s, hs⟩
    obtain ⟨us, hus⟩ := s.exists_completion
    refine ⟨us, ?_⟩
    rw [isSentence_iff_after, Expectation.after_append_of_eq hs, hus]

end DeskCalculator
