import DeskCalculator.Proofs.Descent.Simulation
import Mathlib.Data.List.Forall2

/-!
# Evaluation moves with the bytes

The bytes at which pieces start are only ever reported: no step depends on them. Nor does any step
depend on how a token is spelled. So a source with the same tokens, and the same stray characters,
as another source is evaluated like that one, and an error moves along with the piece at which it
stands, or with the end of the source.

## Main definitions

* `Piece.relocate`: bytes replaced by other ones.
* `Piece.Corresponds`: the same token, or the same stray character, at another byte.
* `Cursor.relocateTo`: a cursor over the pieces of another source.

## Main results

* `Cursor.simulation_relocateTo`: cursors are seen alike over corresponding pieces.
* `evaluateWithin_of_corresponds`: the evaluation of a source with corresponding pieces.
* `evaluateWithin_relocate`: the evaluation of a source with relocated pieces.
-/

namespace DeskCalculator

open Descent (carry)

/-- A piece that starts at another byte. -/
def Piece.relocate (f : Nat → Nat) (p : Piece) : Piece := { p with start := f p.start }

/-- The same token, or the same stray character, at another byte. The spelling of a token does not
matter, but a stray character is named in an error. -/
structure Piece.Corresponds (f : Nat → Nat) (p p' : Piece) : Prop where
  /-- Both are the same token, or stray characters. -/
  token?_eq : p'.token? = p.token?
  /-- The other one starts where the first one is moved. -/
  start_eq : p'.start = f p.start
  /-- A stray character is the same. -/
  spelling_eq : p.token? = none → p'.spelling = p.spelling

/-- A cursor over the pieces of another source. -/
def Cursor.relocateTo (f : Nat → Nat) (source' : String) (c : Cursor) : Cursor where
  pieces := DeskCalculator.pieces source'
  extent := source'.utf8ByteSize
  next := c.next
  lookahead? := c.lookahead?.map (Prod.map id f)
  openLevels := c.openLevels

variable {f : Nat → Nat} {source source' : String}

theorem Piece.corresponds_relocate (f : Nat → Nat) (p : Piece) : p.Corresponds f (p.relocate f) :=
  ⟨rfl, rfl, fun _ ↦ rfl⟩

/-- Elements at the same index of two lists are related if the lists are, element by element. -/
theorem rel_getElem? {α β : Type} {R : α → β → Prop} {xs : List α} {ys : List β}
    (h : List.Forall₂ R xs ys) (i : Nat) : Option.Rel R xs[i]? ys[i]? := by
  induction h generalizing i with
  | nil => exact .none
  | cons hab _ ih =>
    cases i with
    | zero => exact .some hab
    | succ i => simpa only [List.getElem?_cons_succ] using ih i

namespace Cursor

/-- A cursor over the pieces of a source. -/
structure IsOver (source : String) (c : Cursor) : Prop where
  /-- The pieces are those of the source. -/
  pieces_eq : c.pieces = DeskCalculator.pieces source
  /-- The bytes are those of the source. -/
  extent_eq : c.extent = source.utf8ByteSize

theorem isOver_before (source : String) : (before source).IsOver source := ⟨rfl, rfl⟩

theorem IsOver.of_follows {c d : Cursor} (h : c.Follows d) (hd : d.IsOver source) :
    c.IsOver source :=
  ⟨h.pieces_eq.symm.trans hd.pieces_eq, h.extent_eq.symm.trans hd.extent_eq⟩

theorem IsOver.follows {c d : Cursor} (hc : c.IsOver source) (h : c.Follows d) :
    d.IsOver source :=
  ⟨h.pieces_eq.trans hc.pieces_eq, h.extent_eq.trans hc.extent_eq⟩

theorem peek_relocateTo (c : Cursor) : (c.relocateTo f source').peek = c.peek := by
  rw [peek, peek, relocateTo, Option.map_map]
  rfl

/-- A step over corresponding pieces. -/
theorem advance_relocateTo (hpieces : List.Forall₂ (Piece.Corresponds f)
    (DeskCalculator.pieces source).toList (DeskCalculator.pieces source').toList) {c : Cursor}
    (hc : c.IsOver source) :
    advance (c.relocateTo f source') = carry f (Cursor.relocateTo f source') (advance c) := by
  have hnext := rel_getElem? hpieces c.next
  rw [Array.getElem?_toList, Array.getElem?_toList, ← hc.pieces_eq] at hnext
  simp only [advance, relocateTo]
  generalize c.pieces[c.next]? = next? at hnext
  generalize (DeskCalculator.pieces source')[c.next]? = next'? at hnext
  cases hnext with
  | none => rfl
  | @some p p' hp =>
    simp only [hp.token?_eq, hp.start_eq]
    cases htoken : p.token? with
    | none =>
      simp only [hp.spelling_eq htoken]
      rfl
    | some t => rfl

/-- Over corresponding pieces every run is the same run. -/
theorem simulation_relocateTo (hpieces : List.Forall₂ (Piece.Corresponds f)
    (DeskCalculator.pieces source).toList (DeskCalculator.pieces source').toList)
    (hextent : source'.utf8ByteSize = f source.utf8ByteSize) :
    Descent.Simulation f (IsOver source) (Cursor.relocateTo f source') where
  live_of_follows := IsOver.of_follows
  peek_eq := peek_relocateTo
  position_eq {c} _ hc := by
    rw [position, position, relocateTo, hc.extent_eq]
    cases c.lookahead? with
    | none => exact hextent
    | some found => rfl
  advance_eq {c} hc := advance_relocateTo hpieces (hc.of_follows (follows_advance c))
  levels_eq _ _ := rfl

/-- The first step over a source with corresponding pieces. -/
theorem ofSource_relocateTo (hpieces : List.Forall₂ (Piece.Corresponds f)
    (DeskCalculator.pieces source).toList (DeskCalculator.pieces source').toList) :
    ofSource source' = match ofSource source with
      | .ok c => .ok (c.relocateTo f source')
      | .error e => .error (e.relocate f) := by
  have hbefore : before source' = (before source).relocateTo f source' := rfl
  rw [ofSource, ofSource, hbefore, advance_relocateTo hpieces (isOver_before source)]
  cases advance (before source) <;> rfl

theorem isOver_of_ofSource {c : Cursor} (h : ofSource source = .ok c) : c.IsOver source := by
  have hfollows := (before source).follows_advance
  rw [ofSource] at h
  cases hadvance : advance (before source) with
  | error e d => simp [hadvance] at h
  | ok _ d =>
    rw [hadvance] at hfollows h
    obtain rfl := Except.ok.inj h
    exact (isOver_before source).follows hfollows

end Cursor

/-- A source with pieces that correspond to those of another one has the same value, or the same
error at the other byte. -/
theorem evaluateWithin_of_corresponds (lib : Elementary) (limit? : Option Nat)
    (hpieces : List.Forall₂ (Piece.Corresponds f) (pieces source).toList (pieces source').toList)
    (hextent : source'.utf8ByteSize = f source.utf8ByteSize) :
    evaluateWithin limit? lib source' =
      (evaluateWithin limit? lib source).mapError (SyntaxError.relocate f) := by
  have hsource' := Cursor.ofSource_relocateTo hpieces
  cases hsource : Cursor.ofSource source with
  | error e =>
    rw [hsource] at hsource'
    rw [Descent.evaluateWithin_of_ofSource_error hsource,
      Descent.evaluateWithin_of_ofSource_error hsource']
    rfl
  | ok c =>
    rw [hsource] at hsource'
    have sim := Cursor.simulation_relocateTo hpieces hextent
    have hsettled := Descent.settled_of_ofSource hsource
    obtain ⟨es, hrun⟩ := Descent.exists_run_of_settled lib limit? .expression hsettled
    have hover := (Cursor.isOver_of_ofSource hsource).follows hrun.follows
    have hrun' := hrun.simulate sim hsettled hover
    rw [Descent.evaluateWithin_eq_verdict hsource hrun,
      Descent.evaluateWithin_eq_verdict hsource' hrun',
      sim.verdict_eq (hrun.follows.settled hsettled) hover]

/-- A source with the pieces of another one at other bytes has the same value, or the same error at
the other byte. -/
theorem evaluateWithin_relocate (lib : Elementary) (limit? : Option Nat)
    (hpieces : (pieces source').toList = (pieces source).toList.map (Piece.relocate f))
    (hextent : source'.utf8ByteSize = f source.utf8ByteSize) :
    evaluateWithin limit? lib source' =
      (evaluateWithin limit? lib source).mapError (SyntaxError.relocate f) := by
  refine evaluateWithin_of_corresponds lib limit? ?_ hextent
  rw [hpieces, List.forall₂_map_right_iff, List.forall₂_same]
  exact fun p _ ↦ p.corresponds_relocate f

end DeskCalculator
