import DeskCalculator.Proofs.Descent.Reachable
import DeskCalculator.Proofs.Scan.Row

/-!
# Cursors move forward

Behind a failed step the lookahead of a cursor is behind its pieces: it was asked for earlier, and
the byte that the cursor shows is that of a token which lies before the stray character. So the
pieces asked for and the byte shown do not move together. Yet the byte is determined by the number
of pieces asked for, and does not decrease with it. Where the lookahead is a token and the next
piece is none that is stray, one more piece makes the byte increase. A production that succeeds
takes such a step, because its rule begins with a token.

## Main definitions

* `shownAt`: the byte that is shown when a number of pieces have been asked for.
* `Cursor.Passes`: a cursor is beyond the lookahead of another one.
* `Cursor.MovesForward`: where operations leave the position of a cursor.

## Main results

* `shownAt_mono`, `Cursor.Reachable.position_eq`: the byte shown, by the number of pieces.
* `Descent.Run.passes`: a run that succeeds goes beyond the lookahead.
* `Cursor.Reachable.movesForward`: reachable cursors move forward.
-/

namespace DeskCalculator

/-! ### The byte that is shown -/

/-- The byte that a cursor over a source shows when it has asked for the first `n` pieces: the start
of the last token among them, or the end of the source behind the last piece. -/
def shownAt (source : String) (n : Nat) : Nat :=
  if (pieces source).size < n then source.utf8ByteSize
  else ((lastToken? ((pieces source).toList.take n)).map Piece.start).getD 0

theorem lastToken?_append (ps qs : List Piece) :
    lastToken? (ps ++ qs) = (lastToken? qs).or (lastToken? ps) := by
  rw [lastToken?, List.filter_append, List.getLast?_append, lastToken?, lastToken?]

theorem mem_of_lastToken? {ps : List Piece} {p : Piece} (h : lastToken? ps = some p) : p ∈ ps :=
  (List.mem_filter.mp (List.mem_of_getLast? h)).1

/-- Of two parts of a row, the pieces of the second start behind those of the first. -/
theorem InRow.start_lt_of_append {start stop : Nat} {ps qs : List Piece}
    (h : InRow start (ps ++ qs) stop) {p q : Piece} (hp : p ∈ ps) (hq : q ∈ qs) :
    p.start < q.start := by
  obtain ⟨mid, hps, hqs⟩ := h.append
  exact Nat.lt_of_lt_of_le (hps.start_bounds p hp).2 (hqs.start_bounds q hq).1

variable {source : String}

theorem start_lt_of_lastToken? {n : Nat} {p : Piece}
    (h : lastToken? ((pieces source).toList.take n) = some p) : p.start < source.utf8ByteSize :=
  ((inRow_pieces source).start_bounds p (List.mem_of_mem_take (mem_of_lastToken? h))).2

theorem shownAt_le (source : String) (n : Nat) : shownAt source n ≤ source.utf8ByteSize := by
  rw [shownAt]
  split
  · exact Nat.le_refl _
  · cases hlast : lastToken? ((pieces source).toList.take n) with
    | none => exact Nat.zero_le _
    | some p => exact Nat.le_of_lt (start_lt_of_lastToken? hlast)

/-- The byte that is shown does not decrease when more pieces are asked for. -/
theorem shownAt_mono {m n : Nat} (h : m ≤ n) : shownAt source m ≤ shownAt source n := by
  by_cases hn : (pieces source).size < n
  · rw [shownAt.eq_def source n, if_pos hn]
    exact shownAt_le source m
  · obtain ⟨k, rfl⟩ := Nat.exists_eq_add_of_le h
    have hm : ¬ (pieces source).size < m := by omega
    rw [shownAt, shownAt, if_neg hm, if_neg hn, List.take_add, lastToken?_append]
    have hrow := inRow_pieces source
    rw [← List.take_append_drop (m + k) (pieces source).toList, List.take_add] at hrow
    obtain ⟨mid, hrow, -⟩ := hrow.append
    cases hmore : lastToken? (((pieces source).toList.drop m).take k) with
    | none => exact Nat.le_of_eq (by rw [Option.none_or])
    | some q =>
      cases hlast : lastToken? ((pieces source).toList.take m) with
      | none => exact Nat.zero_le _
      | some p =>
        exact Nat.le_of_lt
          (hrow.start_lt_of_append (mem_of_lastToken? hlast) (mem_of_lastToken? hmore))

/-- Behind a token, the byte that is shown increases with the next piece, unless this is stray. -/
theorem shownAt_lt_succ {n : Nat} {p : Piece} (hn : n ≤ (pieces source).size)
    (hlast : lastToken? ((pieces source).toList.take n) = some p)
    (hnext : ∀ q, (pieces source)[n]? = some q → q.token? ≠ none) :
    shownAt source n < shownAt source (n + 1) := by
  have hstart : shownAt source n = p.start := by
    rw [shownAt, if_neg (Nat.not_lt.mpr hn), hlast]
    rfl
  rw [hstart, shownAt]
  split
  · exact start_lt_of_lastToken? hlast
  · next hsize =>
    have hlt : n < (pieces source).size := by omega
    have hq : (pieces source)[n]? = some (pieces source)[n] := Array.getElem?_eq_getElem hlt
    have htake : (pieces source).toList.take (n + 1) =
        (pieces source).toList.take n ++ [(pieces source)[n]] := by
      rw [List.take_add_one, Array.getElem?_toList, hq]
      rfl
    have hone : lastToken? [(pieces source)[n]] = some (pieces source)[n] := by
      simp [lastToken?, Option.isSome_iff_ne_none, hnext _ hq]
    have hrow := inRow_pieces source
    rw [← List.take_append_drop (n + 1) (pieces source).toList, htake] at hrow
    obtain ⟨mid, hrow, -⟩ := hrow.append
    rw [htake, lastToken?_append, hone]
    exact hrow.start_lt_of_append (mem_of_lastToken? hlast) (List.mem_singleton_self _)

namespace Cursor

/-- A cursor is beyond the lookahead of another one: that has a lookahead and no stray character
behind it, and fewer pieces have been asked for. -/
structure Passes (c d : Cursor) : Prop where
  /-- There is a lookahead. -/
  peek_ne : c.peek ≠ none
  /-- The next piece is no stray character. -/
  token?_ne : ∀ p, c.pieces[c.next]? = some p → p.token? ≠ none
  /-- The next piece has been asked for. -/
  next_lt : c.next < d.next

/-- Where operations leave the position of a cursor over a source. -/
structure MovesForward (lib : Elementary) (source : String) (c : Cursor) : Prop where
  /-- No operation decreases the position, whether it fails or not. -/
  position_le : ∀ op : Operation, c.position ≤ (op.perform lib c).position
  /-- A step that succeeds before the end of the source increases the position. -/
  position_lt_of_advance : c.isExhausted = false → ∀ d, c.advance = .ok () d →
    c.position < d.position
  /-- A production that succeeds increases the position. -/
  position_lt_of_production : ∀ f ∈ productions lib, ∀ v d, f c = .ok v d →
    c.position < d.position
  /-- At the end of the source every production fails there: a primary is missing, or no level is
  left. The cursor stays as it is. -/
  production_of_exhausted : c.isExhausted = true → ∀ f ∈ productions lib,
    f c = .error (if c.openLevels < nestingLimit then .unexpectedEnd source.utf8ByteSize
      else .tooDeep source.utf8ByteSize) c

variable {lib : Elementary} {c d : Cursor}

theorem peek_eq_none_iff : c.peek = none ↔ c.isExhausted = true := by
  rw [peek, isExhausted, Option.map_eq_none_iff, Option.isNone_iff_eq_none]

theorem Reachable.position_eq (h : c.Reachable lib source) :
    c.position = shownAt source c.next := by
  obtain ⟨hpieces, hextent, hlook⟩ := h.shows
  have hsettled := h.settled
  rw [Settled, hpieces] at hsettled
  rw [hpieces] at hlook
  rw [position, shownAt]
  split
  · next hlt => rw [hsettled.mpr hlt, hextent]; rfl
  · next hle =>
    have hlook := hlook (Nat.not_lt.mp hle)
    have hsome : c.lookahead? ≠ none := fun hnone ↦ hle (hsettled.mp hnone)
    cases hlast : lastToken? ((DeskCalculator.pieces source).toList.take c.next) with
    | none => exact absurd (by rw [hlook, hlast]; rfl) hsome
    | some p =>
      rw [hlast, Option.bind_some] at hlook
      cases ht : p.token? with
      | none => exact absurd (by rw [hlook, ht]; rfl) hsome
      | some t => rw [hlook, ht]; rfl

/-- Reachable cursors show their position by the number of pieces that they have asked for. -/
theorem Reachable.position_le (hc : c.Reachable lib source) (hd : d.Reachable lib source)
    (h : c.next ≤ d.next) : c.position ≤ d.position := by
  rw [hc.position_eq, hd.position_eq]
  exact shownAt_mono h

/-- Beyond the lookahead the position is greater. -/
theorem Passes.position_lt (h : c.Passes d) (hc : c.Reachable lib source)
    (hd : d.Reachable lib source) : c.position < d.position := by
  obtain ⟨hpieces, -, hlook⟩ := hc.shows
  have hsome : c.lookahead? ≠ none := mt Option.map_eq_none_iff.mpr h.peek_ne
  have hsize : c.next ≤ c.pieces.size := Nat.not_lt.mp fun hlt ↦ hsome (hc.settled.mpr hlt)
  obtain ⟨p, hlast⟩ : ∃ p, lastToken? (c.pieces.toList.take c.next) = some p := by
    refine Option.ne_none_iff_exists'.mp fun hnone ↦ hsome ?_
    rw [hlook hsize, hnone]
    rfl
  have hnext := h.token?_ne
  rw [hpieces] at hsize hlast hnext
  calc c.position = shownAt source c.next := hc.position_eq
    _ < shownAt source (c.next + 1) := shownAt_lt_succ hsize hlast hnext
    _ ≤ shownAt source d.next := shownAt_mono h.next_lt
    _ = d.position := hd.position_eq.symm

/-- A step that succeeds over a token goes beyond it, and so does what follows the step. -/
theorem Passes.of_advance {c' : Cursor} (hpeek : c.peek ≠ none) (ha : c.advance = .ok () c')
    (hle : c'.next ≤ d.next) : c.Passes d where
  peek_ne := hpeek
  token?_ne p hp ht := by
    have hfails : c.advance = .error (.unexpectedToken p.spelling p.start)
        { c with next := c.next + 1 } := by
      rw [advance, hp]
      simp only [ht]
    cases hfails.symm.trans ha
  next_lt := by
    have hnext := next_advance c
    rw [ha] at hnext
    exact Nat.lt_of_lt_of_le (hnext ▸ Nat.lt_succ_self c.next) hle

theorem Passes.trans_le {e : Cursor} (h : c.Passes d) (hle : d.next ≤ e.next) : c.Passes e :=
  ⟨h.peek_ne, h.token?_ne, Nat.lt_of_lt_of_le h.next_lt hle⟩

end Cursor

namespace Descent

open Cursor

variable {lib : Elementary} {limit? : Option Nat} {task : Task} {c : Cursor} {es : List Event}
  {r : Outcome}

/-- Whether a task stands at the beginning of a rule. -/
def Task.Begins : Task → Prop
  | rule _ | unit => True
  | exponent _ | more .. => False

/-- A run that succeeds from the beginning of a rule goes beyond the lookahead. -/
theorem Run.passes (h : Run lib limit? task c es r) (htask : task.Begins)
    (hr : ∀ e d, r ≠ .error e d) : c.Passes (cursorBehind r) := by
  induction h with
  | refused | unsigned_error | group_error | group_stray | unclosed | unexpected | missing
  | chain_error | step_error | stray => exact absurd rfl (hr _ _)
  | unraised | raised | finished | step => cases htask
  | @factor c _ r _ _ ih =>
    have hinner := ih trivial fun e d heq ↦ hr e d.leave (by rw [heq]; rfl)
    rw [cursorBehind_closeLevel]
    exact ⟨hinner.peek_ne, hinner.token?_ne, hinner.next_lt⟩
  | signed hpeek _ ha operand _ =>
    rw [cursorBehind_mapValue]
    exact .of_advance (hpeek ▸ Option.some_ne_none _) ha operand.follows.next_le
  | number hpeek ha => exact .of_advance (hpeek ▸ Option.some_ne_none _) ha (Nat.le_refl _)
  | group hpeek ha inner _ hd _ =>
    exact .of_advance (hpeek ▸ Option.some_ne_none _) ha
      (Nat.le_trans inner.follows.next_le (follows_of_advance_ok hd).next_le)
  | unsigned _ _ rest ih | chain _ rest ih =>
    exact (ih trivial nofun).trans_le rest.follows.next_le

end Descent

namespace Cursor

variable {lib : Elementary} {source : String} {c : Cursor} {f : Production Float}

/-- A production that succeeds goes beyond the lookahead. -/
theorem passes_of_mem_productions (hf : f ∈ productions lib) (hc : c.Settled) {v : Float}
    {d : Cursor} (h : f c = .ok v d) : c.Passes d := by
  obtain ⟨r, -, hr⟩ := exists_rule_of_mem_productions hf
  obtain ⟨es, hrun⟩ := Descent.exists_run_of_settled lib (some nestingLimit) r hc
  rw [← hr c, h] at hrun
  exact hrun.passes trivial nofun

/-- At the end of the source a production fails where it is. -/
theorem production_of_exhausted (hf : f ∈ productions lib) (hc : c.Settled)
    (h : c.isExhausted = true) : f c = .error
      (if c.openLevels < nestingLimit then .unexpectedEnd c.position else .tooDeep c.position)
        c := by
  obtain ⟨r, hne, hr⟩ := exists_rule_of_mem_productions hf
  obtain ⟨es, hrun⟩ := Descent.exists_run_of_settled lib (some nestingLimit) r hc
  obtain ⟨es', hfails⟩ :=
    Descent.run_of_exhausted lib (some nestingLimit) (peek_eq_none_iff.mpr h) hne
  rw [hr c, (hrun.unique hfails).2]
  congr 1
  by_cases hlt : c.openLevels < nestingLimit
  · rw [if_pos hlt, if_neg (by simpa using hlt)]
  · rw [if_neg hlt, if_pos (by simpa using hlt)]

/-- **Reachable cursors move forward.** No operation on a reachable cursor decreases its position,
whether the operation fails or not and whatever has failed before. A step that succeeds before the
end of the source increases it, and so does a production that succeeds. At the end of the source
all productions fail, there and for want of a primary or of a level, and the cursor stays there. -/
theorem Reachable.movesForward (h : c.Reachable lib source) : c.MovesForward lib source where
  position_le op := by
    refine h.position_le (h.perform op) ?_
    exact next_le_performAll h.settled [op]
  position_lt_of_advance hc d ha := by
    have hd : d.Reachable lib source := by
      have hd := h.perform .advance
      rwa [Operation.perform, ha] at hd
    have hpeek : c.peek ≠ none := by rw [Ne, peek_eq_none_iff, hc]; exact Bool.false_ne_true
    exact (Passes.of_advance hpeek ha (Nat.le_refl _)).position_lt h hd
  position_lt_of_production f hf v d hr := by
    have hd := h.of_mem_productions hf
    rw [hr] at hd
    exact (passes_of_mem_productions hf h.settled hr).position_lt h hd
  production_of_exhausted hc f hf := by
    have hposition : c.position = source.utf8ByteSize := by
      rw [position, Option.isNone_iff_eq_none.mp hc, h.shows.extent_eq]
      rfl
    rw [← hposition]
    exact Cursor.production_of_exhausted hf h.settled hc

/-- Behind two steps over stray characters the position is still that of the first token, and the
first step that succeeds goes beyond them. -/
theorem movesForward_strays : ∃ c : Cursor, c.Reachable .machine "2 $ $ 3" ∧ c.next = 3 ∧
    c.position = 0 ∧ (cursorBehind (c.expression .machine)).position = 6 ∧
      c.MovesForward .machine "2 $ $ 3" := by
  have hstart : Reachable .machine "2 $ $ 3"
      ⟨DeskCalculator.pieces "2 $ $ 3", 7, 1, some (.number 2, 0), 0⟩ := .new (by decide +kernel)
  have hreachable := (hstart.perform .advance).perform .expression
  exact ⟨_, hreachable, by decide +kernel, by decide +kernel, by decide +kernel,
    hreachable.movesForward⟩

end Cursor

end DeskCalculator
