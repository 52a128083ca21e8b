import DeskCalculator.Proofs.Descent.Ahead
import Mathlib.Control.Monad.Basic

/-!
# What a cursor shows, whatever is done with it

A cursor can be used on after a failure: it can be stepped, nested and handed to productions in any
order. All that these operations do to it, apart from opening and closing levels, is done by steps.
So a property that every step keeps is kept by them all. In this way a cursor always shows the last
token among the pieces that it has asked for, and nothing once it has asked beyond the last piece. A
failed step leaves the lookahead behind, although its piece is used up.

## Main definitions

* `Cursor.Operation`, `Cursor.performAll`: what can be done with a cursor, one after the other.
* `lastToken?`: the last of some pieces that is a token.
* `Cursor.Faithful`: what a cursor shows of the pieces of a source, and when its steps fail.

## Main results

* `Cursor.performAll_preserves`: operations keep what every step keeps.
* `Cursor.faithful_performAll`: a cursor is a faithful view of the pieces of its source.
-/

namespace DeskCalculator

/-- The last of some pieces that is a token. -/
def lastToken? (ps : List Piece) : Option Piece := (ps.filter (·.token?.isSome)).getLast?

namespace Cursor

/-- What can be done with a cursor. -/
inductive Operation where
  /-- A step. -/
  | advance
  /-- A step over a token that is like the given one. -/
  | eat (expected : Token)
  /-- Opening a level. -/
  | enter
  /-- Closing a level. -/
  | leave
  /-- Reading an expression, which is a sum of terms. -/
  | expression
  /-- Reading a term, which is a product of factors. -/
  | term
  /-- Reading a factor. -/
  | factor

variable (lib : Elementary)

/-- The cursor behind an operation, whether the operation fails or not. -/
def Operation.perform : Operation → Cursor → Cursor
  | advance, c => cursorBehind c.advance
  | eat t, c => cursorBehind (Cursor.eat t c)
  | enter, c => cursorBehind c.enter
  | leave, c => c.leave
  | expression, c => cursorBehind (c.expression lib)
  | term, c => cursorBehind (c.term lib)
  | factor, c => cursorBehind (c.factor lib)

/-- The cursor behind operations that are performed one after the other, also after failures. -/
def performAll (c : Cursor) (ops : List Operation) : Cursor :=
  ops.foldl (fun c op ↦ op.perform lib c) c

/-- The next request comes upon a stray character, which is used up and is the error. -/
def MeetsStray (source : String) (c : Cursor) (e : SyntaxError) (d : Cursor) : Prop :=
  ∃ p, (DeskCalculator.pieces source)[c.next]? = some p ∧ p.token? = none ∧
    e = .unexpectedToken p.spelling p.start ∧ d = { c with next := c.next + 1 }

/-- What a cursor shows of the pieces of a source, and when its steps fail. The pieces that it has
asked for are the first ones, up to the number of its next one. -/
structure Faithful (source : String) (c : Cursor) : Prop where
  /-- Once the cursor has asked beyond the last piece, it is at the end of the source. -/
  exhausted : (DeskCalculator.pieces source).size < c.next →
    c.isExhausted = true ∧ c.peek = none ∧ c.position = source.utf8ByteSize
  /-- Until then the cursor shows the last token among the pieces that it has asked for. -/
  current : c.next ≤ (DeskCalculator.pieces source).size → ∃ p t,
    lastToken? ((DeskCalculator.pieces source).toList.take c.next) = some p ∧ p.token? = some t ∧
      c.isExhausted = false ∧ c.peek = some t ∧ c.position = p.start
  /-- A step asks for one piece. -/
  next_advance : (cursorBehind c.advance).next = c.next + 1
  /-- A step fails exactly if that piece is a stray character. -/
  advance_error_iff : ∀ e d, c.advance = .error e d ↔ c.MeetsStray source e d
  /-- A step over a token that is looked at asks for one piece, and for another token for none. -/
  next_eat : ∀ t, (cursorBehind (eat t c)).next =
    if c.peek.any (·.alike t) then c.next + 1 else c.next
  /-- A step over a token fails exactly if the token is looked at and the step fails. -/
  eat_error_iff : ∀ t e d, eat t c = .error e d ↔
    c.peek.any (·.alike t) = true ∧ c.MeetsStray source e d
  /-- Where another token is looked at, the cursor is left alone. -/
  eat_of_not_alike : ∀ t, c.peek.any (·.alike t) = false → eat t c = .ok false c
  /-- Opening and closing levels asks for no piece. -/
  next_levels : (cursorBehind c.enter).next = c.next ∧ c.leave.next = c.next

variable {lib} {source : String} {c d : Cursor} {P : Cursor → Prop}

/-! ### What steps keep is kept by all operations -/

theorem cursorBehind_eat (t : Token) (c : Cursor) :
    cursorBehind (eat t c) = if c.peek.any (·.alike t) then cursorBehind c.advance else c := by
  unfold eat
  split
  · cases c.advance <;> rfl
  · rfl

/-- Opening a level changes nothing but the number of open levels. -/
theorem exists_cursorBehind_enter (c : Cursor) :
    ∃ n, cursorBehind c.enter = { c with openLevels := n } := by
  unfold enter enterWithin
  split
  · exact ⟨c.openLevels, rfl⟩
  · exact ⟨c.openLevels + 1, rfl⟩

/-- On a settled cursor, an operation keeps what every step keeps. -/
theorem Operation.preserves (op : Operation) (hs : c.Settled)
    (hadvance : ∀ c, P c → P (cursorBehind c.advance))
    (hlevels : ∀ c n, P c → P { c with openLevels := n }) (hc : P c) : P (op.perform lib c) := by
  have hrule (r : Rule) : P (cursorBehind
      (r.production lib (Expression.factorWithin lib (some nestingLimit) c) c)) := by
    obtain ⟨es, hrun⟩ := Descent.exists_run_of_settled lib (some nestingLimit) r hs
    exact hrun.preserves (fun c _ ↦ hadvance c) hlevels hc
  cases op with
  | advance => exact hadvance c hc
  | eat t =>
    rw [perform, cursorBehind_eat]
    split
    · exact hadvance c hc
    · exact hc
  | enter =>
    obtain ⟨n, hn⟩ := exists_cursorBehind_enter c
    rw [perform, hn]
    exact hlevels c n hc
  | leave => exact hlevels c _ hc
  | expression => exact hrule .expression
  | term => exact hrule .term
  | factor => exact hrule .factor

theorem Operation.settled (op : Operation) (hs : c.Settled) : (op.perform lib c).Settled :=
  op.preserves hs (fun _ ↦ Settled.advance_settled) (fun _ _ h ↦ h) hs

theorem performAll_append (c : Cursor) (ops more : List Operation) :
    c.performAll lib (ops ++ more) = (c.performAll lib ops).performAll lib more :=
  List.foldl_append

/-- From a settled cursor on, operations keep what every step keeps. -/
theorem performAll_preserves (hs : c.Settled) (hadvance : ∀ c, P c → P (cursorBehind c.advance))
    (hlevels : ∀ c n, P c → P { c with openLevels := n }) (hc : P c) (ops : List Operation) :
    P (c.performAll lib ops) := by
  induction ops generalizing c with
  | nil => exact hc
  | cons op ops ih => exact ih (op.settled hs) (op.preserves hs hadvance hlevels hc)

theorem Settled.performAll_settled (hs : c.Settled) (ops : List Operation) :
    (c.performAll lib ops).Settled :=
  performAll_preserves hs (fun _ ↦ Settled.advance_settled) (fun _ _ h ↦ h) hs ops

/-- No operation takes a step back. -/
theorem next_le_performAll (hs : c.Settled) (ops : List Operation) :
    c.next ≤ (c.performAll lib ops).next := by
  refine performAll_preserves (P := fun d ↦ c.next ≤ d.next) hs (fun d hd ↦ ?_) (fun _ _ h ↦ h)
    (Nat.le_refl _) ops
  rw [next_advance]
  exact Nat.le_succ_of_le hd

/-! ### The lookahead is the last token asked for -/

/-- A cursor over a source whose lookahead is the last token that it has asked for, unless it has
asked beyond the last piece. -/
structure Shows (source : String) (c : Cursor) : Prop where
  /-- The pieces are those of the source. -/
  pieces_eq : c.pieces = DeskCalculator.pieces source
  /-- The bytes are those of the source. -/
  extent_eq : c.extent = source.utf8ByteSize
  /-- The lookahead is the last token asked for. -/
  lookahead_eq : c.next ≤ c.pieces.size → c.lookahead? =
    (lastToken? (c.pieces.toList.take c.next)).bind fun p ↦ p.token?.map (·, p.start)

theorem shows_before (source : String) : (before source).Shows source :=
  ⟨rfl, rfl, fun _ ↦ rfl⟩

/-- A step shows the piece that it asks for if that is a token, and otherwise what was shown
before. -/
theorem Shows.advance_shows (hc : c.Shows source) : (cursorBehind c.advance).Shows source := by
  unfold Cursor.advance
  cases hpiece : c.pieces[c.next]? with
  | none =>
    have hsize := Array.getElem?_eq_none_iff.mp hpiece
    exact ⟨hc.pieces_eq, hc.extent_eq, fun hle ↦ absurd hsize (Nat.not_le.mpr hle)⟩
  | some p =>
    have hlt := (Array.getElem?_eq_some_iff.mp hpiece).1
    have htake : c.pieces.toList.take (c.next + 1) = c.pieces.toList.take c.next ++ [p] := by
      rw [List.take_add_one, Array.getElem?_toList, hpiece]
      rfl
    simp only
    cases htoken : p.token? with
    | none =>
      refine ⟨hc.pieces_eq, hc.extent_eq, fun _ ↦ ?_⟩
      have hlast : lastToken? (c.pieces.toList.take c.next ++ [p]) =
          lastToken? (c.pieces.toList.take c.next) := by
        simp [lastToken?, htoken]
      simp only [cursorBehind]
      rw [htake, hlast]
      exact hc.lookahead_eq (Nat.le_of_lt hlt)
    | some t =>
      refine ⟨hc.pieces_eq, hc.extent_eq, fun _ ↦ ?_⟩
      have hlast : lastToken? (c.pieces.toList.take c.next ++ [p]) = some p := by
        simp [lastToken?, htoken]
      simp only [cursorBehind]
      rw [htake, hlast, Option.bind_some, htoken]
      rfl

theorem advance_error_iff_of_pieces_eq (hc : c.pieces = DeskCalculator.pieces source)
    (e : SyntaxError) : c.advance = .error e d ↔ c.MeetsStray source e d := by
  rw [MeetsStray, ← hc]
  unfold advance
  cases c.pieces[c.next]? with
  | none => simp
  | some p => cases htoken : p.token? <;> simp [htoken, eq_comm]

theorem eat_error_iff_advance (t : Token) (e : SyntaxError) :
    eat t c = .error e d ↔ c.peek.any (·.alike t) = true ∧ c.advance = .error e d := by
  unfold eat
  split
  · next halike => cases c.advance <;> simp [halike]
  · next halike => simp [halike]

/-- A settled cursor that shows the last token asked for is a faithful view of the source. -/
theorem Shows.faithful (hc : c.Shows source) (hs : c.Settled) : c.Faithful source where
  exhausted hlt := by
    have hnone : c.lookahead? = none := hs.mpr (by rwa [hc.pieces_eq])
    rw [isExhausted, peek, position, hnone, hc.extent_eq]
    exact ⟨rfl, rfl, rfl⟩
  current hle := by
    have hsome : c.lookahead? ≠ none := fun hnone ↦
      Nat.not_lt.mpr hle (hc.pieces_eq ▸ hs.mp hnone)
    have hlook := hc.lookahead_eq (by rwa [hc.pieces_eq])
    obtain ⟨⟨t, b⟩, htb⟩ := Option.ne_none_iff_exists'.mp hsome
    rw [htb] at hlook
    obtain ⟨p, hp, hpiece⟩ := Option.bind_eq_some_iff.mp hlook.symm
    obtain ⟨s, hs, hst⟩ := Option.map_eq_some_iff.mp hpiece
    obtain ⟨rfl, rfl⟩ := Prod.mk.inj hst
    rw [hc.pieces_eq] at hp
    refine ⟨p, s, hp, hs, ?_⟩
    rw [isExhausted, peek, position, htb]
    exact ⟨rfl, rfl, rfl⟩
  next_advance := c.next_advance
  advance_error_iff e d := advance_error_iff_of_pieces_eq hc.pieces_eq e
  next_eat t := by
    rw [cursorBehind_eat]
    split
    · exact c.next_advance
    · rfl
  eat_error_iff t e d := by
    rw [eat_error_iff_advance, advance_error_iff_of_pieces_eq hc.pieces_eq]
  eat_of_not_alike _ := eat_of_not_alike
  next_levels := by
    obtain ⟨n, hn⟩ := exists_cursorBehind_enter c
    rw [hn]
    exact ⟨rfl, rfl⟩

/-- **A cursor is a faithful view of the pieces of its source.** This is so behind any operations,
performed one after the other also when some of them fail. A new cursor has asked for one piece, and
once a cursor has asked beyond the last piece, it stays beyond it. -/
theorem faithful_performAll (lib : Elementary) (source : String) (start : Cursor)
    (h : ofSource source = .ok start) (ops : List Operation) :
    start.next = 1 ∧ (start.performAll lib ops).Faithful source ∧
      ∀ more, (DeskCalculator.pieces source).size < (start.performAll lib ops).next →
        (DeskCalculator.pieces source).size < (start.performAll lib (ops ++ more)).next := by
  have hsettled := Descent.settled_of_ofSource h
  have hfirst := ofSource_eq_ok_iff.mp h
  have hnext := next_advance (before source)
  have hshows := (shows_before source).advance_shows
  rw [hfirst] at hnext hshows
  refine ⟨hnext, ?_, fun more hlt ↦ ?_⟩
  · exact (performAll_preserves hsettled (fun _ ↦ Shows.advance_shows)
      (fun _ _ hd ↦ ⟨hd.pieces_eq, hd.extent_eq, hd.lookahead_eq⟩) hshows ops).faithful
        (hsettled.performAll_settled ops)
  · rw [performAll_append]
    exact Nat.lt_of_lt_of_le hlt (next_le_performAll (hsettled.performAll_settled ops) more)

/-- Behind two steps over stray characters, the second of them inside an expression, the lookahead
is still the first token. -/
theorem faithful_performAll_strays : ∃ start, ofSource "2 $ $ 3" = .ok start ∧
    (start.performAll .machine [.advance, .expression]).next = 3 ∧
    (start.performAll .machine [.advance, .expression]).peek = some (.number 2) ∧
    (start.performAll .machine [.advance, .expression]).Faithful "2 $ $ 3" := by
  have hstart : ofSource "2 $ $ 3" =
      .ok ⟨DeskCalculator.pieces "2 $ $ 3", 7, 1, some (.number 2, 0), 0⟩ := by decide +kernel
  exact ⟨_, hstart, by decide +kernel, by decide +kernel,
    (faithful_performAll .machine _ _ hstart _).2.1⟩

end Cursor

end DeskCalculator
