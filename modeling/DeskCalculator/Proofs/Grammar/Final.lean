import DeskCalculator.Proofs.Descent.Extension
import DeskCalculator.Proofs.Grammar.Obstacle
import DeskCalculator.Proofs.Scan.Joined

/-!
# Errors before the end are final

An evaluation that fails has asked for the piece at the error last, or has come to the end of the
source and fails there. So what stands behind an error that is not at the end has no influence on
it.

## Main results

* `Descent.Run.position_eq_startOf`: a run that fails does so at the last piece it has asked for.
* `evaluate_append_of_error`: an error before the end, with another source joined.
* `evaluate_error_isFinal`: nothing behind an error before the end is read.
-/

namespace DeskCalculator

namespace Cursor

variable {c d : Cursor} {e : SyntaxError}

/-- A failed step fails at the last piece asked for. -/
theorem position_of_advance_error (h : c.advance = .error e d) :
    e.position = startOf d.extent d.ahead := by
  have hahead := ahead_advance c
  obtain ⟨q, qs, hrest, -, rfl⟩ := stray_of_advance_error h
  rw [h, Descent.cursorBehind_error, hrest] at hahead
  rw [hahead]
  rfl

end Cursor

namespace Descent

variable {lib : Elementary} {limit? : Option Nat} {task : Task} {c : Cursor} {es : List Event}
  {r : Outcome}

/-- A run that fails does so at the last piece that it has asked for, or at the end of the source if
it has asked for more. -/
theorem Run.position_eq_startOf (h : Run lib limit? task c es r) (hc : c.InStep) :
    ∀ e d, r = .error e d → e.position = startOf d.extent d.ahead := by
  induction h with
  | number | group | unraised | finished => exact nofun
  | refused | unexpected | missing =>
    rintro e d ⟨⟩
    exact hc.position_eq
  | factor _ _ ih =>
    intro e d hr
    obtain ⟨d', rfl, rfl⟩ := closeLevel_eq_error_iff.mp hr
    exact ih hc.of_openLevel e d' rfl
  | signed hpeek _ ha _ ih | raised hpeek ha _ ih =>
    intro e d hr
    obtain rfl := mapValue_eq_error_iff.mp hr
    exact ih (hc.reads_of_advance_ok hpeek ha).1 e d rfl
  | unsigned_error _ _ ih | chain_error _ ih => exact ih hc
  | unsigned _ first _ _ ih | chain first _ _ ih => exact ih (first.sound hc _ _ rfl).1
  | group_error hpeek ha _ ih | step_error hpeek _ ha _ ih =>
    exact ih (hc.reads_of_advance_ok hpeek ha).1
  | step hpeek _ ha operand _ _ ih =>
    exact ih (operand.sound (hc.reads_of_advance_ok hpeek ha).1 _ _ rfl).1
  | unclosed hpeek ha inner _ _ =>
    rintro e d ⟨⟩
    exact (inner.sound (hc.reads_of_advance_ok hpeek ha).1 _ _ rfl).1.position_eq
  | group_stray _ _ _ _ he | stray _ _ he =>
    rintro e d ⟨⟩
    exact Cursor.position_of_advance_error he

/-- A whole source that fails does so at the last piece that was asked for, or at its end. -/
theorem position_of_completed {e : SyntaxError} {d : Cursor}
    (h : Run lib limit? task c es r) (hc : c.InStep) (hr : completed r = .error e d) :
    e.position = startOf d.extent d.ahead := by
  cases r with
  | error e' d' =>
    obtain ⟨rfl, rfl⟩ := EStateM.Result.error.inj hr
    exact h.position_eq_startOf hc e' d' rfl
  | ok v d' =>
    have hd := (h.sound hc v d' rfl).1
    rw [completed] at hr
    split at hr
    · cases hr
    · obtain ⟨rfl, rfl⟩ := EStateM.Result.error.inj hr
      exact hd.position_eq

end Descent

variable {lib : Elementary} {limit? : Option Nat} {source : String} {e : SyntaxError}

/-- An evaluation that fails does so at the last piece that was asked for, or at the end of the
source. -/
theorem exists_complete_eq_error (h : evaluateWithin limit? lib source = .error e) :
    ∃ d, Expression.complete limit? lib (.before source) = .error e d ∧
      d.pieces = pieces source ∧ e.position = startOf source.utf8ByteSize d.ahead := by
  cases hcomplete : Expression.complete limit? lib (.before source) with
  | ok v d => simp [evaluateWithin, hcomplete] at h
  | error e' d =>
    obtain rfl : e' = e := by simpa [evaluateWithin, hcomplete] using h
    refine ⟨d, rfl, ?_⟩
    cases ha : Cursor.advance (Cursor.before source) with
    | error e'' d' =>
      rw [Expression.complete, Descent.bind_of_error ha] at hcomplete
      obtain ⟨rfl, rfl⟩ := EStateM.Result.error.inj hcomplete
      have hfollows := Cursor.follows_of_advance_error ha
      have hposition := Cursor.position_of_advance_error ha
      rw [hfollows.extent_eq] at hposition
      exact ⟨hfollows.pieces_eq, hposition⟩
    | ok _ c =>
      have hsource : Cursor.ofSource source = .ok c := Cursor.ofSource_eq_ok_iff.mpr ha
      obtain ⟨hstep, -, -, -⟩ := Cursor.inStep_of_ofSource hsource
      obtain ⟨es, hrun⟩ := Descent.exists_run_of_settled lib limit? .expression hstep.settled
      have hfollows := (Cursor.follows_of_advance_ok ha).trans hrun.follows
      rw [Descent.complete_eq_completed hsource hrun] at hcomplete
      rw [← Descent.cursorBehind_completed, hcomplete, Descent.cursorBehind_error] at hfollows
      have hposition := Descent.position_of_completed hrun hstep hcomplete
      rw [hfollows.extent_eq] at hposition
      exact ⟨hfollows.pieces_eq, hposition⟩

/-- An evaluation that fails before the end of a source has not asked beyond its last piece. -/
theorem isWithin_of_error {d : Cursor}
    (hposition : e.position = startOf source.utf8ByteSize d.ahead)
    (hlt : e.position < source.utf8ByteSize) : d.IsWithin := by
  refine Nat.not_lt.mp fun hbeyond ↦ ?_
  have hnil : d.ahead = [] := List.drop_eq_nil_iff.mpr (by rw [Array.length_toList]; omega)
  rw [hposition, hnil] at hlt
  exact Nat.lt_irrefl _ hlt

/-- An error before the end of a source is found again when a source is joined that does not begin
with a digit or a point. -/
theorem evaluate_append_of_error {more : String} (h : evaluate lib source = .error e)
    (hlt : e.position < source.utf8ByteSize) (hmore : EndsNumeral more.toList) :
    evaluate lib (source ++ more) = .error e := by
  obtain ⟨d, hcomplete, -, hposition⟩ := exists_complete_eq_error h
  have hwithin := isWithin_of_error hposition hlt
  rw [evaluate, evaluateWithin_of_append (pieces_append hmore) (by rwa [hcomplete]), ← evaluate, h]

/-- **An error before the end is final.** An evaluation that fails before the end of its source has
not come to the end, and has asked for no piece that starts behind the error. So whatever comes
behind the source, with a space between them, the error stays the same. -/
theorem evaluate_error_isFinal (lib : Elementary) (source : String) (e : SyntaxError)
    (h : evaluate lib source = .error e) (hlt : e.position < source.utf8ByteSize) :
    (∃ d, Expression.complete (some nestingLimit) lib (.before source) = .error e d ∧
      d.next ≤ (pieces source).size ∧
      ∀ p ∈ (pieces source).toList.take d.next, p.start ≤ e.position) ∧
    ∀ more, evaluate lib (source ++ " " ++ more) = .error e := by
  refine ⟨?_, fun more ↦ ?_⟩
  · obtain ⟨d, hcomplete, hpieces, hposition⟩ := exists_complete_eq_error h
    have hwithin := isWithin_of_error hposition hlt
    rw [Cursor.IsWithin, hpieces] at hwithin
    refine ⟨d, hcomplete, hwithin, fun p hp ↦ ?_⟩
    have hrow := inRow_pieces source
    rw [← List.take_append_drop (d.next - 1) (pieces source).toList, ← hpieces] at hrow
    rw [hposition]
    refine hrow.start_le_startOf p ?_
    rw [hpieces, ← List.take_add]
    exact List.take_subset_take_left _ (by omega) hp
  · rw [String.append_assoc]
    refine evaluate_append_of_error h hlt ?_
    rw [String.toList_append]
    rintro c ⟨⟩
    decide

/-- In `2+3x` the letter is an error, and so it is in front of everything that could follow. -/
theorem evaluate_error_isFinal_letter :
    evaluate .machine "2+3x" = .error (.unexpectedToken "x" 3) ∧ 3 < "2+3x".utf8ByteSize ∧
      evaluate .machine "2+3x *(" = .error (.unexpectedToken "x" 3) := by
  have h : evaluate .machine "2+3x" = .error (.unexpectedToken "x" 3) := by decide +kernel
  have hlt : 3 < "2+3x".utf8ByteSize := by decide
  exact ⟨h, hlt, (evaluate_error_isFinal .machine _ _ h hlt).2 "*("⟩

end DeskCalculator
