import DeskCalculator.Proofs.Descent.NestingLimit
import DeskCalculator.Proofs.Descent.Relocation
import DeskCalculator.Proofs.Grammar.Evaluation
import DeskCalculator.Proofs.Grammar.Obstacle

/-!
# Checking a source without evaluating it

Whether a source is an expression, and which error it has otherwise, can be found by a single pass
over its pieces that keeps nothing but an expectation. The pass has the error that evaluation has
without a limit on the nesting. In this way errors are computed on lists of pieces: from the front,
so that a beginning either has an error of its own or hands over an expectation.

## Main definitions

* `Expectation.read`, `Expectation.finish`: what a piece, and the end of the source, do to an
  expectation.
* `Expectation.check`: the pass over pieces.
* `check`: the check of a source.

## Main results

* `check_eq_evaluateWithin`: the check finds what evaluation finds.
* `Expectation.check_append_cases`: what a beginning does to the check.
* `Expectation.check_relocate`: the check of relocated pieces.
-/

namespace DeskCalculator

namespace Expectation

/-- The error for a token that is not expected. -/
def refuse : Expectation → Token → Nat → SyntaxError
  | operand _, t, position => .unexpectedToken t.text position
  | operator 0, t, position => .trailingToken t.text position
  | operator (_ + 1), _, position => .unclosedGroup position

/-- What is expected behind a piece. -/
def read (s : Expectation) (p : Piece) : Except SyntaxError Expectation :=
  match p.token? with
  | none => .error (.unexpectedToken p.spelling p.start)
  | some t =>
    match s.step t with
    | some s' => .ok s'
    | none => .error (s.refuse t p.start)

/-- Whether a source may end here. -/
def finish (extent : Nat) : Expectation → Except SyntaxError Unit
  | operand _ => .error (.unexpectedEnd extent)
  | operator 0 => .ok ()
  | operator (_ + 1) => .error (.unclosedGroup extent)

/-- The check of the pieces that are left of a source of `extent` bytes. -/
def check (extent : Nat) : Expectation → List Piece → Except SyntaxError Unit
  | s, [] => s.finish extent
  | s, p :: ps =>
    match s.read p with
    | .ok s' => check extent s' ps
    | .error e => .error e

end Expectation

/-- Whether a source is an expression, and the error if it is none. -/
def check (source : String) : Except SyntaxError Unit :=
  (Expectation.operand 0).check source.utf8ByteSize (pieces source).toList

namespace Expectation

variable {s s' : Expectation} {extent : Nat} {p : Piece} {ps qs : List Piece} {ts : List Token}
  {e : SyntaxError} {f : Nat → Nat}

theorem read_eq_ok_iff : s.read p = .ok s' ↔ ∃ t, p.token? = some t ∧ s.step t = some s' := by
  unfold read
  cases p.token? with
  | none => simp
  | some t => cases hstep : s.step t <;> simp [hstep]

theorem position_refuse (s : Expectation) (t : Token) (position : Nat) :
    (s.refuse t position).position = position := by
  unfold refuse
  split <;> rfl

/-- An error of a piece is at the piece. -/
theorem position_of_read_error (h : s.read p = .error e) : e.position = p.start := by
  unfold read at h
  split at h
  · obtain rfl := Except.error.inj h
    rfl
  · split at h
    · cases h
    · obtain rfl := Except.error.inj h
      exact position_refuse ..

/-- Pieces that are expected are passed. -/
theorem check_append_of_spells (hts : Spells ps ts) (hs : s.after ts = some s') :
    s.check extent (ps ++ qs) = s'.check extent qs := by
  induction ps generalizing s ts with
  | nil =>
    obtain rfl : ts = [] := List.map_eq_nil_iff.mp hts.symm
    obtain rfl := Option.some.inj hs
    rfl
  | cons p ps ih =>
    obtain ⟨t, us, rfl, ht, hus⟩ := hts.exists_cons
    rw [after_cons, Option.bind_eq_some_iff] at hs
    obtain ⟨s₁, hstep, hs⟩ := hs
    rw [List.cons_append, check, read_eq_ok_iff.mpr ⟨t, ht, hstep⟩]
    exact ih hus hs

/-- An obstacle other than a nesting is what the check finds. -/
theorem check_of_obstacle (h : Obstacle extent s qs e) (hdeep : e ≠ .tooDeep e.position) :
    s.check extent qs = .error e := by
  cases h with
  | stray hq => simp only [check, read, hq]
  | unexpected hq ht | unclosed hq ht | trailing hq ht =>
    simp only [check, read, hq, ht]
    rfl
  | ended | unclosedAtEnd => rfl
  | tooDeep => exact absurd rfl hdeep

/-- A beginning has an error of its own at one of its pieces, or its pieces are tokens behind which
something is expected. -/
theorem check_append_cases (s : Expectation) (ps : List Piece) :
    (∃ e, (∃ p ∈ ps, e.position = p.start) ∧
      ∀ extent qs, s.check extent (ps ++ qs) = .error e) ∨
    ∃ ts s', Spells ps ts ∧ s.after ts = some s' := by
  induction ps generalizing s with
  | nil => exact .inr ⟨[], s, rfl, rfl⟩
  | cons p ps ih =>
    cases hread : s.read p with
    | error e =>
      refine .inl ⟨e, ⟨p, List.mem_cons_self, position_of_read_error hread⟩, fun extent qs ↦ ?_⟩
      rw [List.cons_append, check, hread]
    | ok s₁ =>
      obtain ⟨t, ht, hstep⟩ := read_eq_ok_iff.mp hread
      rcases ih s₁ with ⟨e, ⟨q, hq, he⟩, herror⟩ | ⟨ts, s', hts, hs'⟩
      · refine .inl ⟨e, ⟨q, List.mem_cons_of_mem p hq, he⟩, fun extent qs ↦ ?_⟩
        rw [List.cons_append, check, hread]
        exact herror extent qs
      · refine .inr ⟨t :: ts, s', spells_cons_iff.mpr ⟨p, ps, rfl, ht, hts⟩, ?_⟩
        rw [after_cons, hstep, Option.bind_some, hs']

theorem refuse_relocate (s : Expectation) (t : Token) (position : Nat) :
    (s.refuse t position).relocate f = s.refuse t (f position) := by
  unfold refuse
  split <;> rfl

theorem read_relocate (s : Expectation) (p : Piece) :
    s.read (p.relocate f) = (s.read p).mapError (SyntaxError.relocate f) := by
  rw [read, read, Piece.relocate]
  cases p.token? with
  | none => rfl
  | some t =>
    cases hstep : s.step t with
    | none =>
      simp only [hstep]
      exact congrArg Except.error (s.refuse_relocate t p.start).symm
    | some s' =>
      simp only [hstep]
      rfl

theorem finish_relocate (s : Expectation) (extent : Nat) :
    s.finish (f extent) = (s.finish extent).mapError (SyntaxError.relocate f) := by
  unfold finish
  split <;> rfl

/-- Over relocated pieces the check finds the relocated error. -/
theorem check_relocate (s : Expectation) (extent : Nat) (ps : List Piece) :
    s.check (f extent) (ps.map (Piece.relocate f)) =
      (s.check extent ps).mapError (SyntaxError.relocate f) := by
  induction ps generalizing s with
  | nil => exact s.finish_relocate extent
  | cons p ps ih =>
    rw [List.map_cons, check, check, read_relocate]
    cases s.read p with
    | error e => rfl
    | ok s' => exact ih s'

end Expectation

/-- The check finds what the evaluation finds that has no limit on the nesting. -/
theorem check_eq_evaluateWithin (lib : Elementary) (source : String) :
    check source = (evaluateWithin none lib source).map fun _ ↦ () := by
  cases h : evaluateWithin none lib source with
  | ok v =>
    obtain ⟨d, hspells, -⟩ := exists_derivation_of_evaluateWithin h
    rw [check, ← List.append_nil (pieces source).toList,
      Expectation.check_append_of_spells hspells (d.after_tokens 0)]
    rfl
  | error e =>
    obtain ⟨ps, ts, s, qs, hpieces, hps, hs, hobstacle⟩ := exists_obstacle_of_evaluateWithin h
    rw [check, hpieces, Expectation.check_append_of_spells hps hs]
    refine Expectation.check_of_obstacle hobstacle fun hdeep ↦ ?_
    rw [hdeep] at h
    exact Descent.evaluateWithin_none_ne_tooDeep source e.position h

/-- An error of the evaluation without a limit is the error of the check. -/
theorem evaluateWithin_none_eq_error_iff {lib : Elementary} {source : String} {e : SyntaxError} :
    evaluateWithin none lib source = .error e ↔ check source = .error e := by
  rw [check_eq_evaluateWithin lib]
  cases evaluateWithin none lib source <;> simp [Except.map]

end DeskCalculator
