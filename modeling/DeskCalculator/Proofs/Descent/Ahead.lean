import DeskCalculator.Proofs.Descent.Adequacy

/-!
# What lies ahead of a cursor

As long as no step has failed, the lookahead of a cursor is the first of the pieces that are still
ahead, and there is none when nothing is ahead any more. Such a cursor is *in step* with its pieces.
A run that succeeds leaves a cursor in step, with an end part of the pieces ahead. So a run over a
source can be described by lists of pieces.

## Main definitions

* `Cursor.ahead`: the pieces from the lookahead on.
* `Cursor.InStep`: the lookahead is the first piece ahead.
* `Spells`: pieces that are the tokens of a list.
* `Cursor.Reads`: the tokens between two cursors.

## Main results

* `Cursor.InStep.of_advance_ok`, `Cursor.InStep.of_advance_error`: what a step does to the pieces
  ahead.
* `Cursor.inStep_of_ofSource`: the first step over a source has all its pieces ahead.
-/

namespace DeskCalculator

/-- Pieces that are the tokens of a list, without a stray character among them. -/
def Spells (ps : List Piece) (ts : List Token) : Prop := ps.map Piece.token? = ts.map some

theorem spells_nil_iff {ps : List Piece} : Spells ps [] ↔ ps = [] := by
  rw [Spells, List.map_nil, List.map_eq_nil_iff]

theorem spells_cons_iff {ps : List Piece} {t : Token} {ts : List Token} :
    Spells ps (t :: ts) ↔ ∃ p qs, ps = p :: qs ∧ p.token? = some t ∧ Spells qs ts := by
  rw [Spells, List.map_cons, List.map_eq_cons_iff]
  rfl

theorem spells_append_iff {ps : List Piece} {ts us : List Token} :
    Spells ps (ts ++ us) ↔ ∃ qs rs, ps = qs ++ rs ∧ Spells qs ts ∧ Spells rs us := by
  rw [Spells, List.map_append, List.map_eq_append_iff]
  rfl

/-- A first piece spells the first token. -/
theorem Spells.exists_cons {p : Piece} {ps : List Piece} {ts : List Token}
    (h : Spells (p :: ps) ts) : ∃ t us, ts = t :: us ∧ p.token? = some t ∧ Spells ps us := by
  obtain ⟨t, us, rfl, ht, hus⟩ := List.map_eq_cons_iff.mp h.symm
  exact ⟨t, us, rfl, ht.symm, hus.symm⟩

/-- The tokens of some pieces that come first are the first tokens. -/
theorem Spells.exists_append {ps qs : List Piece} {ts us : List Token} (h : Spells ps us)
    (h' : Spells (ps ++ qs) ts) : ∃ vs, ts = us ++ vs ∧ Spells qs vs := by
  rw [Spells, List.map_append, h] at h'
  obtain ⟨us', vs, rfl, hus, hvs⟩ := List.map_eq_append_iff.mp h'.symm
  obtain rfl : us' = us := (List.map_inj_right fun _ _ ↦ Option.some.inj).mp hus
  exact ⟨vs, rfl, hvs.symm⟩

/-- Joined pieces that are tokens are tokens in both parts. -/
theorem Spells.split {ps qs : List Piece} {ts : List Token} (h : Spells (ps ++ qs) ts) :
    ∃ us vs, ts = us ++ vs ∧ Spells ps us ∧ Spells qs vs := by
  rw [Spells, List.map_append] at h
  obtain ⟨us, vs, rfl, hus, hvs⟩ := List.map_eq_append_iff.mp h.symm
  exact ⟨us, vs, rfl, hus.symm, hvs.symm⟩

namespace Cursor

/-- The pieces that no step has asked for. -/
def rest (c : Cursor) : List Piece := c.pieces.toList.drop c.next

/-- The pieces from the lookahead on, on a cursor that is in step. -/
def ahead (c : Cursor) : List Piece := c.pieces.toList.drop (c.next - 1)

/-- The lookahead is the first piece ahead, and there is none if nothing is ahead. -/
structure InStep (c : Cursor) : Prop where
  /-- The first step has been taken. -/
  next_pos : 0 < c.next
  /-- Nothing is looked at behind the last piece. -/
  lookahead_of_nil : c.ahead = [] → c.lookahead? = none
  /-- The first piece ahead is a token, and it is the lookahead. -/
  lookahead_of_cons : ∀ p ps, c.ahead = p :: ps →
    ∃ t, p.token? = some t ∧ c.lookahead? = some (t, p.start)

theorem head?_rest (c : Cursor) : c.rest.head? = c.pieces[c.next]? := by
  rw [rest, List.head?_drop, Array.getElem?_toList]

/-- A step puts ahead what it has found unasked, also when it fails. -/
theorem ahead_advance (c : Cursor) : (cursorBehind (advance c)).ahead = c.rest := by
  rw [ahead, rest, next_advance, pieces_advance, Nat.add_sub_cancel]

/-- A cursor is in step behind a successful step. -/
theorem inStep_of_advance_ok {c d : Cursor} (h : advance c = .ok () d) :
    d.InStep ∧ d.ahead = c.rest := by
  have hnext := next_advance c
  have hahead := ahead_advance c
  rw [h] at hnext hahead
  simp only [cursorBehind] at hnext hahead
  have hhead := c.head?_rest
  refine ⟨⟨by omega, fun hnil ↦ ?_, fun p ps hcons ↦ ?_⟩, hahead⟩
  · rw [← hahead, hnil, List.head?_nil] at hhead
    rw [advance, ← hhead] at h
    cases h
    rfl
  · rw [← hahead, hcons, List.head?_cons] at hhead
    rw [advance, ← hhead] at h
    cases ht : p.token? with
    | none => simp [ht] at h
    | some t =>
      simp only [ht] at h
      cases h
      exact ⟨t, rfl, rfl⟩

/-- A step fails at a stray character, and says which one it is. -/
theorem stray_of_advance_error {c d : Cursor} {e : SyntaxError} (h : advance c = .error e d) :
    ∃ q qs, c.rest = q :: qs ∧ q.token? = none ∧ e = .unexpectedToken q.spelling q.start := by
  have hhead := c.head?_rest
  cases hrest : c.rest with
  | nil =>
    rw [hrest, List.head?_nil] at hhead
    rw [advance, ← hhead] at h
    cases h
  | cons q qs =>
    rw [hrest, List.head?_cons] at hhead
    rw [advance, ← hhead] at h
    cases ht : q.token? with
    | some t =>
      simp only [ht] at h
      cases h
    | none =>
      simp only [ht] at h
      cases h
      exact ⟨q, qs, rfl, ht, rfl⟩

/-- A step succeeds unless a stray character comes next. -/
theorem exists_advance_ok {c : Cursor} (h : ∀ q ∈ c.rest.head?, q.token? ≠ none) :
    ∃ d, advance c = .ok () d := by
  cases ha : advance c with
  | ok _ d => exact ⟨d, rfl⟩
  | error e d =>
    obtain ⟨q, qs, hrest, hstray, -⟩ := stray_of_advance_error ha
    exact absurd hstray (h q (by rw [hrest, List.head?_cons, Option.mem_some_iff]))

/-- A step fails if a stray character comes next. -/
theorem exists_advance_error {c : Cursor} {q : Piece} {qs : List Piece} (h : c.rest = q :: qs)
    (hq : q.token? = none) :
    ∃ d, advance c = .error (.unexpectedToken q.spelling q.start) d := by
  have hhead := c.head?_rest
  rw [h, List.head?_cons] at hhead
  refine ⟨{ c with next := c.next + 1 }, ?_⟩
  rw [advance, ← hhead]
  simp only [hq]

namespace InStep

variable {c d : Cursor}

theorem rest_eq (h : c.InStep) {p : Piece} {ps : List Piece} (ha : c.ahead = p :: ps) :
    c.rest = ps := by
  have hpos := h.next_pos
  have hdrop : c.rest = c.ahead.drop 1 := by
    rw [rest, ahead, List.drop_drop, Nat.sub_add_cancel hpos]
  rw [hdrop, ha, List.drop_one, List.tail_cons]

/-- A token that is looked at is the first piece ahead. -/
theorem ahead_of_peek (h : c.InStep) {t : Token} (ht : c.peek = some t) :
    ∃ p ps, c.ahead = p :: ps ∧ p.token? = some t ∧ c.position = p.start := by
  cases ha : c.ahead with
  | nil => simp [peek, h.lookahead_of_nil ha] at ht
  | cons p ps =>
    obtain ⟨s, hs, hlook⟩ := h.lookahead_of_cons p ps ha
    obtain rfl : s = t := by simpa [peek, hlook] using ht
    exact ⟨p, ps, rfl, hs, by rw [position, hlook]; rfl⟩

/-- When nothing is looked at, nothing is ahead. -/
theorem ahead_of_peek_none (h : c.InStep) (ht : c.peek = none) :
    c.ahead = [] ∧ c.position = c.extent := by
  cases ha : c.ahead with
  | nil => exact ⟨rfl, by rw [position, h.lookahead_of_nil ha]; rfl⟩
  | cons p ps =>
    obtain ⟨s, hs, hlook⟩ := h.lookahead_of_cons p ps ha
    simp [peek, hlook] at ht

/-- The first piece ahead is what the cursor looks at. -/
theorem peek_eq (h : c.InStep) : c.peek = c.ahead.head?.bind Piece.token? := by
  cases ha : c.ahead with
  | nil => rw [peek, h.lookahead_of_nil ha]; rfl
  | cons p ps =>
    obtain ⟨t, ht, hlook⟩ := h.lookahead_of_cons p ps ha
    rw [peek, hlook, List.head?_cons, Option.bind_some, ht]
    rfl

/-- A cursor that is in step is settled. -/
theorem settled (h : c.InStep) : c.Settled := by
  have hpos := h.next_pos
  cases ha : c.ahead with
  | nil =>
    have hlength := List.drop_eq_nil_iff.mp ha
    rw [Array.length_toList] at hlength
    exact iff_of_true (h.lookahead_of_nil ha) (by omega)
  | cons p ps =>
    obtain ⟨t, -, hlook⟩ := h.lookahead_of_cons p ps ha
    have hlength : c.ahead.length = c.pieces.size - (c.next - 1) := by simp [ahead]
    rw [ha, List.length_cons] at hlength
    exact iff_of_false (by simp [hlook]) (by omega)

/-- A step leaves the pieces behind the first one ahead. -/
theorem of_advance_ok (h : c.InStep) {p : Piece} {ps : List Piece} (ha : c.ahead = p :: ps)
    (hok : advance c = .ok () d) : d.InStep ∧ d.ahead = ps := by
  have hd := inStep_of_advance_ok hok
  rwa [h.rest_eq ha] at hd

/-- A step fails when the second piece ahead is a stray character. -/
theorem of_advance_error (h : c.InStep) {p : Piece} {ps : List Piece} (ha : c.ahead = p :: ps)
    {e : SyntaxError} (he : advance c = .error e d) :
    ∃ q qs, ps = q :: qs ∧ q.token? = none ∧ e = .unexpectedToken q.spelling q.start := by
  have hstray := stray_of_advance_error he
  rwa [h.rest_eq ha] at hstray

theorem of_openLevel (h : c.InStep) : (Descent.openLevel c).InStep :=
  ⟨h.next_pos, h.lookahead_of_nil, h.lookahead_of_cons⟩

theorem of_leave (h : c.InStep) : c.leave.InStep :=
  ⟨h.next_pos, h.lookahead_of_nil, h.lookahead_of_cons⟩

end InStep

/-- The tokens `ts` lie between two cursors over one source. -/
def Reads (c : Cursor) (ts : List Token) (d : Cursor) : Prop :=
  ∃ ps, c.ahead = ps ++ d.ahead ∧ Spells ps ts

theorem Reads.refl (c : Cursor) : c.Reads [] c := ⟨[], rfl, rfl⟩

theorem Reads.append {c d e : Cursor} {ts us : List Token} (h : c.Reads ts d) (h' : d.Reads us e) :
    c.Reads (ts ++ us) e := by
  obtain ⟨ps, hps, hts⟩ := h
  obtain ⟨qs, hqs, hus⟩ := h'
  exact ⟨ps ++ qs, by rw [hps, hqs, List.append_assoc], spells_append_iff.mpr ⟨_, _, rfl, hts, hus⟩⟩

/-- A step reads the token that was looked at. -/
theorem InStep.reads_of_advance_ok {c d : Cursor} (h : c.InStep) {t : Token}
    (ht : c.peek = some t) (hok : advance c = .ok () d) : d.InStep ∧ c.Reads [t] d := by
  obtain ⟨p, ps, hahead, hp, -⟩ := h.ahead_of_peek ht
  obtain ⟨hd, rfl⟩ := h.of_advance_ok hahead hok
  exact ⟨hd, [p], hahead, by rw [Spells, List.map_singleton, List.map_singleton, hp]⟩

/-- The first step over a source has all its pieces ahead. -/
theorem inStep_of_ofSource {source : String} {c : Cursor} (h : ofSource source = .ok c) :
    c.InStep ∧ c.ahead = (DeskCalculator.pieces source).toList ∧ c.openLevels = 0 ∧
      c.extent = source.utf8ByteSize := by
  have ha := ofSource_eq_ok_iff.mp h
  obtain ⟨hstep, hahead⟩ := inStep_of_advance_ok ha
  exact ⟨hstep, hahead, openLevels_of_advance_ok ha, (follows_of_advance_ok ha).extent_eq⟩

/-- The first step over a source fails if the source begins with a stray character. -/
theorem stray_of_ofSource_error {source : String} {e : SyntaxError}
    (h : ofSource source = .error e) :
    ∃ q qs, (DeskCalculator.pieces source).toList = q :: qs ∧ q.token? = none ∧
      e = .unexpectedToken q.spelling q.start := by
  obtain ⟨d, ha⟩ := ofSource_eq_error_iff.mp h
  exact stray_of_advance_error ha

end Cursor

end DeskCalculator
