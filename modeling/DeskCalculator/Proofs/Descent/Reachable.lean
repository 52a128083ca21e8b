import DeskCalculator.Proofs.Descent.Operation

/-!
# Reachable cursors

A cursor over a source is *reachable* if it is a new one, or behind an operation on a reachable one,
whether the operation fails or not. So its lookahead may be out of step with its pieces, and any
number of its levels may be open. What is said about reachable cursors holds at every moment of the
use of a cursor.

## Main definitions

* `Cursor.Reachable`: the cursors that come up when one is used.
* `Cursor.productions`: the productions that a cursor offers.

## Main results

* `Cursor.Reachable.settled`, `Cursor.Reachable.shows`: what every reachable cursor keeps.
* `Cursor.exists_rule_of_mem_productions`: the productions read rules.
-/

namespace DeskCalculator.Cursor

/-- The cursors that come up when a cursor over a source is used. -/
inductive Reachable (lib : Elementary) (source : String) : Cursor → Prop
  /-- A new cursor. -/
  | new {c} (h : ofSource source = .ok c) : Reachable lib source c
  /-- The cursor behind an operation, whether the operation fails or not. -/
  | perform {c} (h : Reachable lib source c) (op : Operation) :
      Reachable lib source (op.perform lib c)

/-- The productions that a cursor offers: those of an expression, of a term and of a factor. -/
def productions (lib : Elementary) : List (Production Float) :=
  [expression lib, term lib, factor lib]

variable {lib : Elementary} {source : String} {c : Cursor} {f : Production Float}

/-- The first step over a source shows what it asks for. -/
theorem shows_of_ofSource (h : ofSource source = .ok c) : c.Shows source := by
  have hshows := (shows_before source).advance_shows
  rwa [ofSource_eq_ok_iff.mp h] at hshows

theorem Reachable.settled (h : c.Reachable lib source) : c.Settled := by
  induction h with
  | new h => exact Descent.settled_of_ofSource h
  | perform _ op ih => exact op.settled ih

theorem Reachable.shows (h : c.Reachable lib source) : c.Shows source := by
  induction h with
  | new h => exact shows_of_ofSource h
  | perform h op ih =>
    exact op.preserves h.settled (fun _ ↦ Shows.advance_shows)
      (fun _ _ hd ↦ ⟨hd.pieces_eq, hd.extent_eq, hd.lookahead_eq⟩) ih

theorem mem_productions_iff :
    f ∈ productions lib ↔ f = expression lib ∨ f = term lib ∨ f = factor lib := by
  simp only [productions, List.mem_cons, List.not_mem_nil, or_false]

/-- The cursor behind a production that a reachable cursor offers is reachable. -/
theorem Reachable.of_mem_productions (h : c.Reachable lib source) (hf : f ∈ productions lib) :
    (cursorBehind (f c)).Reachable lib source := by
  obtain rfl | rfl | rfl := mem_productions_iff.mp hf
  · exact h.perform .expression
  · exact h.perform .term
  · exact h.perform .factor

/-- Every production that a cursor offers reads a rule that begins with a factor. -/
theorem exists_rule_of_mem_productions (hf : f ∈ productions lib) : ∃ r ≠ Rule.primary,
    ∀ c, f c = r.production lib (Expression.factorWithin lib (some nestingLimit) c) c := by
  obtain rfl | rfl | rfl := mem_productions_iff.mp hf
  · exact ⟨.expression, nofun, fun _ ↦ rfl⟩
  · exact ⟨.term, nofun, fun _ ↦ rfl⟩
  · exact ⟨.factor, nofun, fun _ ↦ rfl⟩

end DeskCalculator.Cursor
