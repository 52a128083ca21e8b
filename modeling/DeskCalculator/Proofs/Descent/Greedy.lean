import DeskCalculator.Proofs.Descent.Steps
import DeskCalculator.Proofs.Grammar.Unambiguous

/-!
# Runs are greedy

A run of a rule that succeeds has not left behind an operator which the rule owns. This holds from
every cursor, also from one whose lookahead is out of step with its pieces.

## Main definitions

* `Descent.Task.owns`: the operators with which a task goes on.

## Main results

* `Descent.Run.owns_eq_false`: the lookahead behind a run that succeeds.
-/

namespace DeskCalculator.Descent

/-- Whether a task goes on when this token is looked at. -/
def Task.owns : Task → Token → Bool
  | rule r => r.owns
  | unit | exponent _ => Rule.factor.owns
  | more l _ => (Rule.chain l).owns

/-- In the middle of a chain, the operand before has left none of its own operators. -/
def Task.Ready : Task → Cursor → Prop
  | more l _, c => ∀ t, c.peek = some t → l.operand.owns t = false
  | rule _, _ | unit, _ | exponent _, _ => True

variable {lib : Elementary} {limit? : Option Nat} {task : Task} {c : Cursor} {es : List Event}
  {r : Outcome}

/-- Behind a run that succeeds, the lookahead is no operator which its task owns. -/
theorem Run.owns_eq_false (h : Run lib limit? task c es r) (hc : task.Ready c) :
    ∀ v d, r = .ok v d → ∀ t, d.peek = some t → task.owns t = false := by
  induction h with
  | refused | unsigned_error | group_error | group_stray | unclosed | unexpected | missing
  | chain_error | step_error | stray => exact nofun
  | @factor _ _ r _ _ ih =>
    cases r with
    | error e d' => exact nofun
    | ok w d' =>
      rintro v d ⟨⟩
      exact ih trivial w d' rfl
  | @signed _ _ _ _ _ r _ _ _ _ ih | @raised _ _ _ _ r _ _ _ ih =>
    cases r with
    | error e d' => exact nofun
    | ok w d' =>
      rintro v d ⟨⟩
      exact ih trivial w d' rfl
  | unsigned _ _ _ _ ih => exact ih trivial
  | number | group => exact fun _ _ _ _ _ ↦ rfl
  | unraised hpeek =>
    rintro v d ⟨⟩ t ht
    simp only [Task.owns, Rule.owns, decide_eq_false_iff_not]
    rintro rfl
    exact hpeek ht
  | chain _ _ ih ih' =>
    intro v d hr t ht
    exact ih' (ih trivial _ _ rfl) v d hr t ht
  | finished hpeek =>
    rintro v d ⟨⟩ t ht
    rw [ht, Option.bind_some] at hpeek
    rw [Task.owns, Rule.owns_chain, hc t ht, hpeek]
    rfl
  | step _ _ _ _ _ ih ih' =>
    exact ih' (ih trivial _ _ rfl)

end DeskCalculator.Descent
