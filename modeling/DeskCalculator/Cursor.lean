import DeskCalculator.Failure
import DeskCalculator.Piece

/-!
# Cursors

A cursor walks over the pieces of a source with one token of lookahead. A step asks for the next
piece. A token becomes the lookahead; behind the last piece there is no lookahead any more; at a
stray character the step fails, and the lookahead stays what it was although the piece is used up.
A cursor lives on after a failure, so every operation gives one back in either case. A cursor also
counts the levels of nesting that are open, of which there may be at most `nestingLimit`.

## Main definitions

* `Cursor`: a place among the pieces of a source.
* `Production`: an operation on a cursor that may fail.
* `Cursor.advance`, `Cursor.eat`: steps.
* `Cursor.enter`, `Cursor.leave`, `Cursor.nested`: levels of nesting.

## Main results

* `Cursor.next_advance`: a step uses up one piece, whether it fails or not.
-/

namespace DeskCalculator

/-- The number of levels of nesting that may be open at a time. -/
def nestingLimit : Nat := 256

/-- A place among the pieces of a source. -/
structure Cursor where
  /-- The pieces of the source. -/
  pieces : Array Piece
  /-- The number of bytes of the source. -/
  extent : Nat
  /-- The number of steps taken. The next one asks for the piece with this index. -/
  next : Nat
  /-- The token that has been looked at and not been used, with the byte at which it starts. -/
  lookahead? : Option (Token × Nat)
  /-- The number of levels of nesting that are open. -/
  openLevels : Nat
deriving DecidableEq

/-- An operation on a cursor. It gives a value or an error, and in either case the cursor as it is
afterwards. -/
abbrev Production (α : Type) := EStateM SyntaxError Cursor α

namespace Cursor

/-- The cursor before the first step. -/
def before (source : String) : Cursor where
  pieces := DeskCalculator.pieces source
  extent := source.utf8ByteSize
  next := 0
  lookahead? := none
  openLevels := 0

/-- The token that the cursor looks at; none behind the last one. -/
def peek (c : Cursor) : Option Token := c.lookahead?.map Prod.fst

/-- The byte at which the lookahead starts, or the number of bytes of the source behind the last
token. -/
def position (c : Cursor) : Nat := (c.lookahead?.map Prod.snd).getD c.extent

/-- Whether all tokens are used up. -/
def isExhausted (c : Cursor) : Bool := c.lookahead?.isNone

/-- The number of steps that can still make a difference: one for each piece that is left, and one
that finds the end. -/
def remaining (c : Cursor) : Nat := c.pieces.size + 1 - c.next

/-- One step: the next token becomes the lookahead. A stray character is an error. -/
def advance : Production Unit := fun c =>
  match c.pieces[c.next]? with
  | none => .ok () { c with next := c.next + 1, lookahead? := none }
  | some piece =>
    match piece.token? with
    | some token => .ok () { c with next := c.next + 1, lookahead? := some (token, piece.start) }
    | none => .error (.unexpectedToken piece.spelling piece.start) { c with next := c.next + 1 }

/-- A cursor over a source that looks at its first token. -/
def ofSource (source : String) : Except SyntaxError Cursor :=
  match advance (before source) with
  | .ok _ c => .ok c
  | .error e _ => .error e

/-- Takes a step if the lookahead is like `expected`, and tells whether it was. -/
def eat (expected : Token) : Production Bool := fun c =>
  if c.peek.any (·.alike expected) then
    match advance c with
    | .ok _ c => .ok true c
    | .error e c => .error e c
  else .ok false c

/-- Opens a level of nesting. With a limit, no more levels than that may be open at a time. -/
def enterWithin (limit? : Option Nat) : Production Unit := fun c =>
  if limit?.any (· ≤ c.openLevels) then .error (.tooDeep c.position) c
  else .ok () { c with openLevels := c.openLevels + 1 }

/-- Opens a level of nesting, unless `nestingLimit` levels are open. -/
def enter : Production Unit := enterWithin (some nestingLimit)

/-- Closes a level of nesting, if one is open. -/
def leave (c : Cursor) : Cursor := { c with openLevels := c.openLevels - 1 }

/-- Runs a production on a level of nesting of its own, which is closed behind it even if the
production fails. -/
def nested {α : Type} (limit? : Option Nat) (inner : Production α) : Production α := fun c =>
  match enterWithin limit? c with
  | .error e c => .error e c
  | .ok _ c =>
    match inner c with
    | .ok value c => .ok value c.leave
    | .error e c => .error e c.leave

/-- Fails at the lookahead. -/
def fail {α : Type} (error : Nat → SyntaxError) : Production α := fun c =>
  .error (error c.position) c

end Cursor

/-- The cursor behind a production, whether it failed or not. -/
def cursorBehind {α : Type} : EStateM.Result SyntaxError Cursor α → Cursor
  | .ok _ c => c
  | .error _ c => c

namespace Cursor

/-- A step uses up one piece, whether it fails or not. -/
theorem next_advance (c : Cursor) : (cursorBehind (advance c)).next = c.next + 1 := by
  unfold advance
  split
  · rfl
  · split <;> rfl

theorem openLevels_advance (c : Cursor) :
    (cursorBehind (advance c)).openLevels = c.openLevels := by
  unfold advance
  split
  · rfl
  · split <;> rfl

theorem pieces_advance (c : Cursor) : (cursorBehind (advance c)).pieces = c.pieces := by
  unfold advance
  split
  · rfl
  · split <;> rfl

/-- A token that is not like the lookahead is left alone. -/
theorem eat_of_not_alike {c : Cursor} {t : Token} (h : c.peek.any (·.alike t) = false) :
    eat t c = .ok false c := by
  simp [eat, h]

end Cursor

end DeskCalculator
