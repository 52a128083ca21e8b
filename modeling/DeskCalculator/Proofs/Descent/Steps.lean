import DeskCalculator.Proofs.Descent.Run

/-!
# Where a run leaves the cursor

A cursor is *settled* when it has a lookahead exactly as long as it has not asked beyond the last
piece. The first step over a source settles the cursor, and everything that happens later keeps it
settled, also a step that fails and leaves the lookahead behind. On a settled cursor with a
lookahead every step brings the end nearer, which is why the descent ends.

## Main definitions

* `Cursor.Settled`: the invariant.
* `Cursor.Follows`: a cursor can come from another one by going on over the same source.

## Main results

* `Descent.Run.preserves`: a run keeps what every step over a token keeps.
* `Descent.Run.follows`: a run goes on from its cursor.
* `Descent.Run.openLevels_eq`: a run closes all levels that it opens.
* `Descent.run_of_exhausted`: at the end of the source a run leaves the cursor as it is.
-/

namespace DeskCalculator

namespace Cursor

/-- The cursor has a lookahead until it has asked beyond the last piece. -/
def Settled (c : Cursor) : Prop := c.lookahead? = none ↔ c.pieces.size < c.next

/-- One cursor comes from another by going on over the same source. -/
structure Follows (c d : Cursor) : Prop where
  /-- The pieces are the same. -/
  pieces_eq : d.pieces = c.pieces
  /-- The number of bytes is the same. -/
  extent_eq : d.extent = c.extent
  /-- No step is taken back. -/
  next_le : c.next ≤ d.next
  /-- A settled cursor stays settled. -/
  settled : c.Settled → d.Settled

theorem Follows.refl (c : Cursor) : c.Follows c := ⟨rfl, rfl, Nat.le_refl _, id⟩

theorem Follows.trans {c d e : Cursor} (h : c.Follows d) (h' : d.Follows e) : c.Follows e :=
  ⟨h'.pieces_eq.trans h.pieces_eq, h'.extent_eq.trans h.extent_eq,
    Nat.le_trans h.next_le h'.next_le, h'.settled ∘ h.settled⟩

/-- No step is gained by going on. -/
theorem Follows.remaining_le {c d : Cursor} (h : c.Follows d) : d.remaining ≤ c.remaining := by
  have hnext := h.next_le
  rw [remaining, remaining, h.pieces_eq]
  omega

theorem extent_advance (c : Cursor) : (cursorBehind (advance c)).extent = c.extent := by
  unfold advance
  split
  · rfl
  · split <;> rfl

/-- A step keeps a cursor settled, also when it fails. -/
theorem Settled.advance_settled {c : Cursor} (h : c.Settled) :
    (cursorBehind (advance c)).Settled := by
  unfold advance
  split
  case h_1 hnone =>
    have hsize := Array.getElem?_eq_none_iff.mp hnone
    exact iff_of_true rfl (Nat.lt_succ_of_le hsize)
  case h_2 piece hpiece =>
    have hsize := (Array.getElem?_eq_some_iff.mp hpiece).1
    split
    · exact iff_of_false (Option.some_ne_none _) (Nat.not_lt.mpr hsize)
    · have hlook : c.lookahead? ≠ none := fun hl ↦ by have := h.mp hl; omega
      exact iff_of_false hlook (Nat.not_lt.mpr hsize)

theorem follows_advance (c : Cursor) : c.Follows (cursorBehind (advance c)) :=
  ⟨pieces_advance c, extent_advance c, by rw [next_advance]; omega, Settled.advance_settled⟩

theorem follows_of_advance_ok {c d : Cursor} (h : advance c = .ok () d) : c.Follows d := by
  have hf := follows_advance c
  rwa [h] at hf

theorem follows_of_advance_error {c d : Cursor} {e : SyntaxError} (h : advance c = .error e d) :
    c.Follows d := by
  have hf := follows_advance c
  rwa [h] at hf

theorem openLevels_of_advance_ok {c d : Cursor} (h : advance c = .ok () d) :
    d.openLevels = c.openLevels := by
  have hf := openLevels_advance c
  rwa [h] at hf

theorem openLevels_of_advance_error {c d : Cursor} {e : SyntaxError} (h : advance c = .error e d) :
    d.openLevels = c.openLevels := by
  have hf := openLevels_advance c
  rwa [h] at hf

/-- A new cursor comes from the first step. -/
theorem ofSource_eq_ok_iff {source : String} {c : Cursor} :
    ofSource source = .ok c ↔ advance (before source) = .ok () c := by
  rw [ofSource]
  cases advance (before source) <;> simp

/-- There is no cursor over a source whose first step fails. -/
theorem ofSource_eq_error_iff {source : String} {e : SyntaxError} :
    ofSource source = .error e ↔ ∃ d, advance (before source) = .error e d := by
  rw [ofSource]
  cases advance (before source) <;> simp

/-- There is a token to look at only as long as a step remains. -/
theorem Settled.remaining_pos {c : Cursor} (h : c.Settled) {t : Token} (ht : c.peek = some t) :
    0 < c.remaining := by
  have hlook : c.lookahead? ≠ none := fun hl ↦ by simp [peek, hl] at ht
  have hnext : ¬ c.pieces.size < c.next := fun hn ↦ hlook (h.mpr hn)
  rw [remaining]
  omega

/-- When no step remains, there is nothing to look at. -/
theorem Settled.peek_eq_none {c : Cursor} (h : c.Settled) (hzero : c.remaining = 0) :
    c.peek = none := by
  cases ht : c.peek with
  | none => rfl
  | some t => exact absurd hzero (Nat.ne_of_gt (h.remaining_pos ht))

/-- A step over a token uses up one of the remaining steps. -/
theorem Settled.remaining_lt {c d : Cursor} (h : c.Settled) {t : Token} (ht : c.peek = some t)
    (ha : advance c = .ok () d) : d.remaining < c.remaining := by
  have hpos := h.remaining_pos ht
  have hnext := next_advance c
  have hpieces := pieces_advance c
  rw [ha] at hnext hpieces
  simp only [cursorBehind] at hnext hpieces
  rw [remaining] at hpos ⊢
  rw [remaining, hpieces, hnext]
  omega

end Cursor

namespace Descent

variable {lib : Elementary} {limit? : Option Nat} {task : Task} {c : Cursor} {es : List Event}
  {r : Outcome}

@[simp] theorem cursorBehind_ok {α : Type} (a : α) (c : Cursor) :
    cursorBehind (.ok a c : EStateM.Result SyntaxError Cursor α) = c := rfl

@[simp] theorem cursorBehind_error {α : Type} (e : SyntaxError) (c : Cursor) :
    cursorBehind (.error e c : EStateM.Result SyntaxError Cursor α) = c := rfl

@[simp] theorem cursorBehind_mapValue (f : Float → Float) (r : Outcome) :
    cursorBehind (mapValue f r) = cursorBehind r := by
  cases r <;> rfl

@[simp] theorem cursorBehind_closeLevel (r : Outcome) :
    cursorBehind (closeLevel r) = (cursorBehind r).leave := by
  cases r <;> rfl

/-- What every step over a token keeps, also one that fails, and what says nothing about levels, is
kept by a run. -/
theorem Run.preserves {P : Cursor → Prop} (h : Run lib limit? task c es r)
    (hadvance : ∀ c, c.peek ≠ none → P c → P (cursorBehind c.advance))
    (hlevels : ∀ c n, P c → P { c with openLevels := n }) (hc : P c) : P (cursorBehind r) := by
  have hok {c d : Cursor} {t : Token} (hpeek : c.peek = some t) (ha : c.advance = .ok () d)
      (hc : P c) : P d := by
    have hd := hadvance c (hpeek ▸ Option.some_ne_none t) hc
    rwa [ha] at hd
  have herror {c d : Cursor} {t : Token} {e : SyntaxError} (hpeek : c.peek = some t)
      (ha : c.advance = .error e d) (hc : P c) : P d := by
    have hd := hadvance c (hpeek ▸ Option.some_ne_none t) hc
    rwa [ha] at hd
  induction h with
  | refused | unexpected | missing | unraised | finished => exact hc
  | factor _ _ ih =>
    rw [cursorBehind_closeLevel]
    exact hlevels _ _ (ih (hlevels _ _ hc))
  | signed hpeek _ ha _ ih | raised hpeek ha _ ih =>
    rw [cursorBehind_mapValue]
    exact ih (hok hpeek ha hc)
  | unsigned_error _ _ ih | chain_error _ ih => exact ih hc
  | unsigned _ _ _ ih ih' | chain _ _ ih ih' => exact ih' (ih hc)
  | number hpeek ha => exact hok hpeek ha hc
  | group_error hpeek ha _ ih | unclosed hpeek ha _ _ ih | step_error hpeek _ ha _ ih =>
    exact ih (hok hpeek ha hc)
  | group hpeek ha _ hclose hd ih => exact hok hclose hd (ih (hok hpeek ha hc))
  | group_stray hpeek ha _ hclose hd ih => exact herror hclose hd (ih (hok hpeek ha hc))
  | step hpeek _ ha _ _ ih ih' => exact ih' (ih (hok hpeek ha hc))
  | stray hpeek _ ha => exact herror hpeek ha hc

/-- A run goes on from its cursor, whether it fails or not. -/
theorem Run.follows (h : Run lib limit? task c es r) : c.Follows (cursorBehind r) :=
  h.preserves (fun d _ hd ↦ hd.trans (Cursor.follows_advance d))
    (fun _ _ hd ↦ hd.trans ⟨rfl, rfl, Nat.le_refl _, id⟩) (Cursor.Follows.refl c)

/-- A run closes all levels that it opens, whether it fails or not. -/
theorem Run.openLevels_eq (h : Run lib limit? task c es r) :
    (cursorBehind r).openLevels = c.openLevels := by
  induction h with
  | refused | unexpected | missing | unraised | finished => rfl
  | factor _ _ ih =>
    rw [cursorBehind_closeLevel, Cursor.leave, ih, openLevel]
    exact Nat.add_sub_cancel ..
  | signed _ _ ha _ ih | raised _ ha _ ih =>
    rw [cursorBehind_mapValue, ih, Cursor.openLevels_of_advance_ok ha]
  | unsigned_error _ _ ih | chain_error _ ih => exact ih
  | unsigned _ _ _ ih ih' | chain _ _ ih ih' => exact ih'.trans ih
  | number _ ha => exact Cursor.openLevels_of_advance_ok ha
  | group_error _ ha _ ih | unclosed _ ha _ _ ih | step_error _ _ ha _ ih =>
    exact ih.trans (Cursor.openLevels_of_advance_ok ha)
  | group _ ha _ _ hd ih =>
    exact (Cursor.openLevels_of_advance_ok hd).trans
      (ih.trans (Cursor.openLevels_of_advance_ok ha))
  | group_stray _ ha _ _ hd ih =>
    exact (Cursor.openLevels_of_advance_error hd).trans
      (ih.trans (Cursor.openLevels_of_advance_ok ha))
  | step _ _ ha _ _ ih ih' => exact ih'.trans (ih.trans (Cursor.openLevels_of_advance_ok ha))
  | stray _ _ ha => exact Cursor.openLevels_of_advance_error ha

theorem Run.openLevels_of_ok {v : Float} {d : Cursor} (h : Run lib limit? task c es (.ok v d)) :
    d.openLevels = c.openLevels := h.openLevels_eq

/-- At the end of the source, a rule that begins with a factor fails as the factor does. -/
theorem run_of_exhausted (lib : Elementary) (limit? : Option Nat) (hpeek : c.peek = none)
    {r : Rule} (hr : r ≠ .primary) :
    ∃ es, Run lib limit? (.rule r) c es (.error
      (if limit?.any (· ≤ c.openLevels) then .tooDeep c.position else .unexpectedEnd c.position)
        c) := by
  obtain ⟨es, hfactor⟩ : ∃ es, Run lib limit? (.rule .factor) c es (.error
      (if limit?.any (· ≤ c.openLevels) then .tooDeep c.position else .unexpectedEnd c.position)
        c) := by
    cases hlimit : limit?.any (· ≤ c.openLevels) with
    | true => exact ⟨[], .refused hlimit⟩
    | false =>
      have hunit : Run lib limit? .unit (openLevel c) [] (.error (.unexpectedEnd _) _) :=
        .unsigned_error (congrArg (·.bind Token.sign?) hpeek) (.missing hpeek)
      exact ⟨_, hunit.factor hlimit⟩
  match r with
  | .factor => exact ⟨es, hfactor⟩
  | .chain .product => exact ⟨es, .chain_error hfactor⟩
  | .chain .sum => exact ⟨es, .chain_error (.chain_error hfactor)⟩

end Descent

end DeskCalculator
