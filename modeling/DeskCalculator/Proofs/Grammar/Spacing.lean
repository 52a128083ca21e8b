import DeskCalculator.Proofs.Grammar.Obstacle
import DeskCalculator.Proofs.Scan.Spaced

/-!
# Spaces between pieces mean nothing

Spaces that are put into a source outside of its pieces change neither its pieces nor its value. An
error stays the same as well, and is found at the same piece or again at the end of the source. This
holds of every source, whether it is an expression or not.

## Main definitions

* `SamePlace`: bytes of two sources at which pieces of the same number start, or both sources end.

## Main results

* `evaluate_spaced`: the pieces and the evaluation of a source with spaces put in.
-/

namespace DeskCalculator

/-- At two bytes of two sources, pieces of the same number start, or both sources end. -/
def SamePlace (source source' : String) (position position' : Nat) : Prop :=
  (∃ (i : Nat) (p p' : Piece), (pieces source)[i]? = some p ∧ (pieces source')[i]? = some p' ∧
    p.start = position ∧ p'.start = position') ∨
  source.utf8ByteSize = position ∧ source'.utf8ByteSize = position'

/-- An error is found where a piece starts or the source ends. -/
theorem samePlace_of_relocate {lib : Elementary} {source source' : String} {f : Nat → Nat}
    {e : SyntaxError} (h : evaluate lib source = .error e)
    (hpieces : (pieces source').toList = (pieces source).toList.map (Piece.relocate f))
    (hextent : source'.utf8ByteSize = f source.utf8ByteSize) :
    SamePlace source source' e.position (f e.position) := by
  obtain ⟨ps, ts, s, qs, hsource, -, -, hobstacle⟩ := exists_obstacle_of_evaluateWithin h
  rw [hobstacle.position_eq]
  cases qs with
  | nil => exact .inr ⟨rfl, hextent⟩
  | cons q qs =>
    refine .inl ⟨ps.length, q, q.relocate f, ?_, ?_, rfl, rfl⟩
    · rw [← Array.getElem?_toList, hsource]
      simp
    · rw [← Array.getElem?_toList, hpieces, hsource]
      simp

/-- **Spaces between pieces mean nothing.** When any number of spaces is put into a source at bytes
that are not inside its pieces, then its pieces stay the same, it has the same value, and it has the
same error at the place that corresponds. -/
theorem evaluate_spaced (lib : Elementary) (source : String) (gaps : Nat → Nat)
    (h : LeavesPieces gaps (pieces source).toList) :
    (pieces (spaced gaps source)).toList.map (fun p ↦ (p.token?, p.spelling)) =
        (pieces source).toList.map (fun p ↦ (p.token?, p.spelling)) ∧
      (∀ v, evaluate lib (spaced gaps source) = .ok v ↔ evaluate lib source = .ok v) ∧
      ∀ e, evaluate lib source = .error e → ∃ position,
        evaluate lib (spaced gaps source) = .error (e.relocate fun _ ↦ position) ∧
          SamePlace source (spaced gaps source) e.position position := by
  obtain ⟨hpieces, hextent⟩ := pieces_spaced h
  have hevaluate : evaluate lib (spaced gaps source) =
      (evaluate lib source).mapError (SyntaxError.relocate (movedTo gaps)) :=
    evaluateWithin_relocate lib _ hpieces hextent
  refine ⟨?_, fun v ↦ ?_, fun e he ↦ ⟨movedTo gaps e.position, ?_, ?_⟩⟩
  · rw [hpieces, List.map_map]
    rfl
  · rw [hevaluate]
    cases evaluate lib source <;> simp [Except.mapError]
  · rw [hevaluate, he, ← SyntaxError.relocate_eq]
    rfl
  · exact samePlace_of_relocate he hpieces hextent

/-- In `1..5` the first point is stray, and it is so with spaces on either side of it. -/
theorem evaluate_spaced_points :
    spaced (fun b ↦ if b = 1 ∨ b = 2 then 2 else 0) "1..5" = "1  .  .5" ∧
      ∃ position, evaluate .machine "1  .  .5" = .error (.unexpectedToken "." position) ∧
        SamePlace "1..5" "1  .  .5" 1 position := by
  have hspaced : spaced (fun b ↦ if b = 1 ∨ b = 2 then 2 else 0) "1..5" = "1  .  .5" := by
    decide +kernel
  have hinside : ∀ p ∈ (pieces "1..5").toList, p.stop ≤ 4 ∧
      ∀ b < 4, p.start < b → b < p.stop → b ≠ 1 ∧ b ≠ 2 := by decide +kernel
  have hleaves : LeavesPieces (fun b ↦ if b = 1 ∨ b = 2 then 2 else 0) (pieces "1..5").toList := by
    intro p hp b hb hb'
    obtain ⟨hstop, hne⟩ := hinside p hp
    exact if_neg (not_or.mpr (hne b (by omega) hb hb'))
  have herror : evaluate .machine "1..5" = .error (.unexpectedToken "." 1) := by decide +kernel
  have hmain := (evaluate_spaced .machine "1..5" _ hleaves).2.2 _ herror
  rw [hspaced] at hmain
  exact ⟨hspaced, hmain⟩

end DeskCalculator
