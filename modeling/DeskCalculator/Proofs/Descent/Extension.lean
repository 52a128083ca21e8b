import DeskCalculator.Proofs.Descent.Ahead
import DeskCalculator.Proofs.Descent.Simulation

/-!
# A source with more behind it

When more pieces are put behind those of a source, a run does not notice as long as it has not asked
beyond the last piece of the source. So an evaluation that comes to its outcome without asking
beyond the last piece has this outcome whatever comes behind the source.

## Main definitions

* `Cursor.extend`: a cursor over a source with more pieces.
* `Cursor.IsWithin`: a cursor that has not asked beyond the last piece.

## Main results

* `Cursor.simulation_extend`: runs are the same over more pieces.
* `evaluateWithin_of_append`: an evaluation that stays within a source.
-/

namespace DeskCalculator

namespace Cursor

/-- A cursor over a source with more pieces, which has `extent` bytes. -/
def extend (more : Array Piece) (extent : Nat) (c : Cursor) : Cursor :=
  { c with pieces := c.pieces ++ more, extent := extent }

/-- The cursor has not asked beyond the last piece. -/
def IsWithin (c : Cursor) : Prop := c.next ≤ c.pieces.size

variable {c d : Cursor} {more : Array Piece} {extent : Nat}

/-- A settled cursor that has not asked beyond the last piece has a lookahead. -/
theorem Settled.lookahead?_ne_none (h : c.Settled) (hc : c.IsWithin) : c.lookahead? ≠ none :=
  fun hnone ↦ Nat.not_lt.mpr hc (h.mp hnone)

/-- A step that finds a piece finds it also with more pieces behind. -/
theorem advance_extend (h : (cursorBehind c.advance).IsWithin) :
    (c.extend more extent).advance = Descent.carry id (extend more extent) c.advance := by
  rw [IsWithin, next_advance, pieces_advance] at h
  have hnext : (c.extend more extent).pieces[(c.extend more extent).next]? = c.pieces[c.next]? :=
    Array.getElem?_append_left h
  rw [advance, advance, hnext]
  cases c.pieces[c.next]? with
  | none => rfl
  | some p =>
    dsimp only
    cases p.token? <;> rfl

/-- As long as a run has not asked beyond the last piece, it is the same run with more pieces. -/
theorem simulation_extend (more : Array Piece) (extent : Nat) :
    Descent.Simulation id IsWithin (extend more extent) where
  live_of_follows hfollows hd := by
    rw [IsWithin, hfollows.pieces_eq] at hd
    exact Nat.le_trans hfollows.next_le hd
  peek_eq _ := rfl
  position_eq hs hc := by
    obtain ⟨found, hfound⟩ := Option.ne_none_iff_exists'.mp (hs.lookahead?_ne_none hc)
    simp only [position, extend, hfound]
    rfl
  advance_eq := advance_extend
  levels_eq _ _ := rfl

/-- More pieces behind those of a source are more pieces behind those of its first cursor. -/
theorem before_eq_extend {source source' : String} {ps : List Piece}
    (h : (DeskCalculator.pieces source').toList = (DeskCalculator.pieces source).toList ++ ps) :
    before source' = (before source).extend ps.toArray source'.utf8ByteSize := by
  have hpieces : DeskCalculator.pieces source' = DeskCalculator.pieces source ++ ps.toArray :=
    Array.toList_inj.mp (by rw [h, Array.toList_append])
  rw [before, hpieces]
  rfl

/-- The first step over a source, with more pieces behind. -/
theorem ofSource_extend {source source' : String} {ps : List Piece}
    (h : (DeskCalculator.pieces source').toList = (DeskCalculator.pieces source).toList ++ ps)
    (hne : (DeskCalculator.pieces source).toList ≠ []) :
    ofSource source' = match ofSource source with
      | .ok c => .ok (c.extend ps.toArray source'.utf8ByteSize)
      | .error e => .error e := by
  have hwithin : (cursorBehind (before source).advance).IsWithin := by
    rw [IsWithin, next_advance, pieces_advance]
    exact List.length_pos_iff.mpr hne
  rw [ofSource, ofSource, before_eq_extend h, advance_extend hwithin]
  cases advance (before source) with
  | ok _ c => rfl
  | error e c => cases e <;> rfl

end Cursor

/-- An evaluation that has not asked beyond the last piece of a source stays the same when more
pieces come behind them. -/
theorem evaluateWithin_of_append {lib : Elementary} {limit? : Option Nat} {source source' : String}
    {more : List Piece} (hpieces : (pieces source').toList = (pieces source).toList ++ more)
    (hwithin : (cursorBehind (Expression.complete limit? lib (.before source))).IsWithin) :
    evaluateWithin limit? lib source' = evaluateWithin limit? lib source := by
  cases hsource : Cursor.ofSource source with
  | error e =>
    obtain ⟨q, qs, hq, -, -⟩ := Cursor.stray_of_ofSource_error hsource
    have hsource' := Cursor.ofSource_extend hpieces (by rw [hq]; exact List.cons_ne_nil q qs)
    rw [hsource] at hsource'
    rw [Descent.evaluateWithin_of_ofSource_error hsource,
      Descent.evaluateWithin_of_ofSource_error hsource']
  | ok c =>
    have sim := Cursor.simulation_extend more.toArray source'.utf8ByteSize
    have hc := Descent.settled_of_ofSource hsource
    obtain ⟨hstep, hahead, -, -⟩ := Cursor.inStep_of_ofSource hsource
    obtain ⟨es, hrun⟩ := Descent.exists_run_of_settled lib limit? .expression hc
    rw [Descent.complete_eq_completed hsource hrun, Descent.cursorBehind_completed] at hwithin
    have hlook := hc.lookahead?_ne_none (sim.live_of_follows hrun.follows hwithin)
    have hsource' := Cursor.ofSource_extend hpieces fun hnil ↦
      hlook (hstep.lookahead_of_nil (hahead.trans hnil))
    rw [hsource] at hsource'
    rw [Descent.evaluateWithin_eq_verdict hsource hrun,
      Descent.evaluateWithin_eq_verdict hsource' (hrun.simulate sim hc hwithin),
      sim.verdict_eq (hrun.follows.settled hc) hwithin, SyntaxError.relocate_id]
    cases Descent.verdict _ <;> rfl

end DeskCalculator
