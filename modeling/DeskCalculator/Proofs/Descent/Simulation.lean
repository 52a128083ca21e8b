import DeskCalculator.Proofs.Descent.Adequacy

/-!
# Runs seen through another cursor

A run asks its cursor for little: what it looks at, the byte at which it stands, and what a step
does. If these are the same for two cursors, up to the bytes that are reported, then the run from
the one is also a run from the other. Sometimes the cursors agree only as long as the run does not
go too far, for instance not up to the end of the shorter one of two sources.

## Main definitions

* `SyntaxError.relocate`, `Descent.Event.relocate`: bytes replaced by other ones.
* `Descent.carry`: what a production gives, seen through another cursor.
* `Descent.Simulation`: a way to see cursors that agrees with their steps.

## Main results

* `Descent.Run.simulate`: a run seen through other cursors.
* `Descent.Simulation.verdict_eq`: the outcome for the whole source.
-/

namespace DeskCalculator

/-- An error that was found at another byte. -/
def SyntaxError.relocate (f : Nat → Nat) : SyntaxError → SyntaxError
  | unexpectedToken token position => unexpectedToken token (f position)
  | unexpectedEnd position => unexpectedEnd (f position)
  | unclosedGroup position => unclosedGroup (f position)
  | trailingToken token position => trailingToken token (f position)
  | tooDeep position => tooDeep (f position)

@[simp] theorem SyntaxError.position_relocate {f : Nat → Nat} (e : SyntaxError) :
    (e.relocate f).position = f e.position := by
  cases e <;> rfl

theorem SyntaxError.relocate_id : SyntaxError.relocate id = id := by
  funext e
  cases e <;> rfl

theorem SyntaxError.relocate_eq (f : Nat → Nat) (e : SyntaxError) :
    e.relocate f = e.relocate fun _ ↦ f e.position := by
  cases e <;> rfl

namespace Descent

/-- An opening of a level at another byte. -/
def Event.relocate (f : Nat → Nat) : Event → Event
  | opened position => opened (f position)
  | closed => closed

/-- What a production gives, with the bytes moved, and the cursor behind it seen through `view`. -/
def carry {α : Type} (move : Nat → Nat) (view : Cursor → Cursor) :
    EStateM.Result SyntaxError Cursor α → EStateM.Result SyntaxError Cursor α
  | .ok a c => .ok a (view c)
  | .error e c => .error (e.relocate move) (view c)

/-- Cursors can be seen through `view`, with the bytes moved, as long as they are live. -/
structure Simulation (move : Nat → Nat) (live : Cursor → Prop) (view : Cursor → Cursor) : Prop where
  /-- A cursor from which a live one comes was live. -/
  live_of_follows : ∀ {c d : Cursor}, c.Follows d → live d → live c
  /-- The lookahead is the same. -/
  peek_eq : ∀ c, (view c).peek = c.peek
  /-- A live cursor stands at the byte that corresponds. -/
  position_eq : ∀ {c : Cursor}, c.Settled → live c → (view c).position = move c.position
  /-- A step behind which the cursor is live is the same step. -/
  advance_eq : ∀ {c : Cursor}, live (cursorBehind c.advance) →
    (view c).advance = carry move view c.advance
  /-- The open levels are the same, and nothing else depends on them. -/
  levels_eq : ∀ c n, view { c with openLevels := n } = { view c with openLevels := n }

variable {move : Nat → Nat} {live : Cursor → Prop} {view : Cursor → Cursor}

theorem mapValue_carry (g : Float → Float) (r : Outcome) :
    mapValue g (carry move view r) = carry move view (mapValue g r) := by
  cases r <;> rfl

namespace Simulation

variable (sim : Simulation move live view) {c d : Cursor}
include sim

theorem openLevels_eq (c : Cursor) : (view c).openLevels = c.openLevels := by
  have hlevels : view c = { view c with openLevels := c.openLevels } :=
    sim.levels_eq c c.openLevels
  rw [hlevels]

theorem openLevel_eq (c : Cursor) : view (openLevel c) = openLevel (view c) := by
  rw [openLevel, openLevel, sim.levels_eq, sim.openLevels_eq]

theorem leave_eq (c : Cursor) : view c.leave = (view c).leave := by
  rw [Cursor.leave, Cursor.leave, sim.levels_eq, sim.openLevels_eq]

/-- Whether a cursor is live does not depend on its open levels. -/
theorem live_levels {n : Nat} (h : live { c with openLevels := n }) : live c := by
  have hfollows : c.Follows { c with openLevels := n } := ⟨rfl, rfl, Nat.le_refl _, id⟩
  exact sim.live_of_follows hfollows h

theorem closeLevel_carry (r : Outcome) :
    closeLevel (carry move view r) = carry move view (closeLevel r) := by
  cases r with
  | ok v c => rw [carry, closeLevel, closeLevel, carry, sim.leave_eq]
  | error e c => rw [carry, closeLevel, closeLevel, carry, sim.leave_eq]

theorem advance_of_ok (ha : c.advance = .ok () d) (hd : live d) :
    (view c).advance = .ok () (view d) := by
  rw [sim.advance_eq (by rwa [ha]), ha]
  rfl

theorem advance_of_error {e : SyntaxError} (ha : c.advance = .error e d) (hd : live d) :
    (view c).advance = .error (e.relocate move) (view d) := by
  rw [sim.advance_eq (by rwa [ha]), ha]
  rfl

/-- A live outcome for a whole source, seen through other cursors. -/
theorem verdict_eq {r : Outcome} (hs : (cursorBehind r).Settled) (hr : live (cursorBehind r)) :
    verdict (carry move view r) = (verdict r).mapError (SyntaxError.relocate move) := by
  cases r with
  | error e c => rfl
  | ok v c =>
    have hposition : (view c).position = move c.position := sim.position_eq hs hr
    rw [carry, verdict, verdict, sim.peek_eq, hposition]
    cases c.peek <;> rfl

end Simulation

variable {lib : Elementary} {limit? : Option Nat} {task : Task} {c : Cursor} {es : List Event}
  {r : Outcome}

/-- A run that ends on a live cursor is the same run when it is seen through other cursors. -/
theorem Run.simulate (h : Run lib limit? task c es r) (sim : Simulation move live view)
    (hc : c.Settled) (hr : live (cursorBehind r)) :
    Run lib limit? task (view c) (es.map (Event.relocate move)) (carry move view r) := by
  have hsettled {c d : Cursor} (ha : c.advance = .ok () d) (hc : c.Settled) : d.Settled :=
    (Cursor.follows_of_advance_ok ha).settled hc
  -- Every part of a live run is live, since the run goes on from it.
  induction h with
  | @refused c hlimit =>
    rw [carry, SyntaxError.relocate, ← sim.position_eq hc hr]
    exact .refused (by rwa [sim.openLevels_eq])
  | @factor c es r hlimit inner ih =>
    rw [cursorBehind_closeLevel] at hr
    have hlive := sim.live_levels hr
    have hopened := sim.live_levels (sim.live_of_follows inner.follows hlive)
    have hrun := ih hc hlive
    rw [sim.openLevel_eq] at hrun
    rw [List.map_cons, List.map_append, Event.relocate, ← sim.position_eq hc hopened,
      ← sim.closeLevel_carry]
    exact hrun.factor (by rwa [sim.openLevels_eq])
  | signed hpeek hsign ha operand ih =>
    rw [cursorBehind_mapValue] at hr
    have hd := sim.live_of_follows operand.follows hr
    rw [← mapValue_carry]
    exact (ih (hsettled ha hc) hr).signed (by rwa [sim.peek_eq]) hsign (sim.advance_of_ok ha hd)
  | unsigned_error hpeek _ ih => exact (ih hc hr).unsigned_error (by rwa [sim.peek_eq])
  | unsigned hpeek base exponent ih ih' =>
    have hd := sim.live_of_follows exponent.follows hr
    rw [List.map_append]
    exact (ih hc hd).unsigned (by rwa [sim.peek_eq]) (ih' (base.follows.settled hc) hr)
  | number hpeek ha => exact .number (by rwa [sim.peek_eq]) (sim.advance_of_ok ha hr)
  | group_error hpeek ha inner ih =>
    have hd := sim.live_of_follows inner.follows hr
    exact (ih (hsettled ha hc) hr).group_error (by rwa [sim.peek_eq]) (sim.advance_of_ok ha hd)
  | group hpeek ha inner hclose hd ih =>
    have hr' := sim.live_of_follows (Cursor.follows_of_advance_ok hd) hr
    have hd' := sim.live_of_follows inner.follows hr'
    exact (ih (hsettled ha hc) hr').group (by rwa [sim.peek_eq]) (sim.advance_of_ok ha hd')
      (by rwa [sim.peek_eq]) (sim.advance_of_ok hd hr)
  | group_stray hpeek ha inner hclose hd ih =>
    have hr' := sim.live_of_follows (Cursor.follows_of_advance_error hd) hr
    have hd' := sim.live_of_follows inner.follows hr'
    exact (ih (hsettled ha hc) hr').group_stray (by rwa [sim.peek_eq]) (sim.advance_of_ok ha hd')
      (by rwa [sim.peek_eq]) (sim.advance_of_error hd hr)
  | @unclosed _ _ c'' _ _ hpeek ha inner hopen ih =>
    have hd := sim.live_of_follows inner.follows hr
    have hs : c''.Settled := inner.follows.settled (hsettled ha hc)
    rw [carry, SyntaxError.relocate, ← sim.position_eq hs hr]
    exact (ih (hsettled ha hc) hr).unclosed (by rwa [sim.peek_eq]) (sim.advance_of_ok ha hd)
      (by rwa [sim.peek_eq])
  | unexpected hpeek ht =>
    rw [carry, SyntaxError.relocate, ← sim.position_eq hc hr]
    exact .unexpected (by rwa [sim.peek_eq]) ht
  | missing hpeek =>
    rw [carry, SyntaxError.relocate, ← sim.position_eq hc hr]
    exact .missing (by rwa [sim.peek_eq])
  | unraised hpeek => exact .unraised (by rwa [sim.peek_eq])
  | raised hpeek ha operand ih =>
    rw [cursorBehind_mapValue] at hr
    have hd := sim.live_of_follows operand.follows hr
    rw [← mapValue_carry]
    exact (ih (hsettled ha hc) hr).raised (by rwa [sim.peek_eq]) (sim.advance_of_ok ha hd)
  | chain_error _ ih => exact (ih hc hr).chain_error
  | chain first rest ih ih' =>
    have hd := sim.live_of_follows rest.follows hr
    rw [List.map_append]
    exact (ih hc hd).chain (ih' (first.follows.settled hc) hr)
  | finished hpeek => exact .finished (by rwa [sim.peek_eq])
  | step_error hpeek hop ha operand ih =>
    have hd := sim.live_of_follows operand.follows hr
    exact (ih (hsettled ha hc) hr).step_error (by rwa [sim.peek_eq]) hop (sim.advance_of_ok ha hd)
  | step hpeek hop ha operand rest ih ih' =>
    have hd' := sim.live_of_follows rest.follows hr
    have hd := sim.live_of_follows operand.follows hd'
    have hs := hsettled ha hc
    rw [List.map_append]
    exact (ih hs hd').step (by rwa [sim.peek_eq]) hop (sim.advance_of_ok ha hd)
      (ih' (operand.follows.settled hs) hr)
  | stray hpeek ht ha =>
    exact .stray (by rwa [sim.peek_eq]) ht (sim.advance_of_error ha hr)

end Descent

end DeskCalculator
