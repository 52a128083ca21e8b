import DeskCalculator.Proofs.Grammar.FirstError
import DeskCalculator.Proofs.Scan.Lossless

/-!
# Errors are located in their source

Whoever shows a source with an error in it cuts the source in two where the error is. For this the
position has to be between two characters, and something has to stand behind it that the error is
about. An error is found at an obstacle, which is ahead of some pieces of the source. So it is found
where a piece starts, or at the end of the source if no piece is ahead any more.

## Main definitions

* `Piece.StandsIn`: a piece stands in a source where it starts.
* `SyntaxError.IsLocated`: a position and a text that fit the source.

## Main results

* `standsIn_of_mem_pieces`: the pieces of a source stand in it.
* `evaluate_error_isLocated`: the errors of evaluation are located in their source.
-/

namespace DeskCalculator

/-- A piece stands in a source where it starts, and does not begin with a space. A piece that is no
token is a single character. -/
def Piece.StandsIn (p : Piece) (source : String) : Prop :=
  ∃ before c rest, source = before ++ String.singleton c ++ rest ∧
    before.utf8ByteSize = p.start ∧ c ≠ ' ' ∧ p.spelling.toList.head? = some c ∧
    (p.token? = none → p.spelling = String.singleton c)

/-- An error is located in a source: its position and its text are those of something there. -/
structure SyntaxError.IsLocated (source : String) (e : SyntaxError) : Prop where
  /-- The position is between two characters. -/
  isValid : (⟨e.position⟩ : String.Pos.Raw).IsValid source
  /-- The position is in the source, or at its end. -/
  position_le : e.position ≤ source.utf8ByteSize
  /-- Where the end is unexpected, the position is the end. -/
  ended : e = .unexpectedEnd e.position → e.position = source.utf8ByteSize
  /-- At the end of the source it is a missing operand, an open group, or a level too much. -/
  atEnd : e.position = source.utf8ByteSize →
    e = .unexpectedEnd e.position ∨ e = .unclosedGroup e.position ∨ e = .tooDeep e.position
  /-- Before the end a piece starts at the position, and the error has no text but the one of this
  piece. At a stray character the error consists in that character. -/
  atPiece : e.position < source.utf8ByteSize → ∃ p ∈ (pieces source).toList,
    p.start = e.position ∧ p.StandsIn source ∧
      (p.token? = none → e = .unexpectedToken p.spelling e.position) ∧
      ∀ t, p.token? = some t → ∀ text,
        e = .unexpectedToken text e.position ∨ e = .trailingToken text e.position → text = t.text

variable {source : String} {e : SyntaxError}

/-! ### Pieces in their source -/

/-- Digits begin with a digit. -/
theorem IsDigits.exists_cons {cs : List Char} (h : IsDigits cs) :
    ∃ c more, cs = c :: more ∧ c.isDigit = true := by
  obtain ⟨c, more, rfl⟩ := List.exists_cons_of_ne_nil h.1
  exact ⟨c, more, rfl, h.2 c List.mem_cons_self⟩

/-- A lexeme does not begin with a space. -/
theorem IsLexeme.exists_cons {cs : List Char} (h : IsLexeme cs) :
    ∃ c more, cs = c :: more ∧ c ≠ ' ' := by
  have hdigit {c : Char} (hc : c.isDigit = true) : c ≠ ' ' := by rintro rfl; cases hc
  cases h with
  | number h =>
    cases h with
    | whole h =>
      obtain ⟨c, more, rfl, hc⟩ := h.exists_cons
      exact ⟨c, more, rfl, hdigit hc⟩
    | pointed h =>
      obtain ⟨c, more, rfl, hc⟩ := h.exists_cons
      exact ⟨c, _, rfl, hdigit hc⟩
    | fraction => exact ⟨'.', _, rfl, by decide⟩
  | mark h => exact ⟨_, [], rfl, by cases h <;> decide⟩

/-- The longest piece at the beginning of a text does not begin with a space, and is a single
character if it is no token. -/
theorem Piece.IsLongestAt.exists_cons {p : Piece} {text : List Char} (h : p.IsLongestAt text) :
    ∃ c more, p.spelling.toList = c :: more ∧ c ≠ ' ' ∧ (p.token? = none → more = []) := by
  by_cases hlexeme : ∃ cs, IsLexeme cs ∧ cs <+: text
  · obtain ⟨t, ht, hspelling, -⟩ := h.lexeme hlexeme
    obtain ⟨c, more, hcons, hc⟩ := hspelling.isLexeme.exists_cons
    exact ⟨c, more, hcons, hc, by simp [ht]⟩
  · obtain ⟨-, c, hc, hspelling⟩ := h.stray hlexeme
    exact ⟨c, [], hspelling, hc, fun _ ↦ rfl⟩

/-- The pieces of a source stand in it. -/
theorem standsIn_of_mem_pieces {p : Piece} (h : p ∈ (pieces source).toList) :
    p.StandsIn source := by
  obtain ⟨before, rest, htext, hstart, hlongest⟩ :=
    (split_scan 0 source.toList).exists_isLongestAt p h
  obtain ⟨c, more, hspelling, hc, hstray⟩ := hlongest.exists_cons
  refine ⟨String.ofList before, c, String.ofList (more ++ rest), ?_, ?_, hc, ?_, fun hnone ↦ ?_⟩
  · rw [← String.toList_inj, htext, hspelling]
    simp
  · rwa [Nat.zero_add] at hstart
  · rw [hspelling, List.head?_cons]
  · rw [← String.toList_inj, hspelling, hstray hnone, String.toList_singleton]

/-- A piece starts between two characters. -/
theorem Piece.StandsIn.isValid {p : Piece} (h : p.StandsIn source) :
    (⟨p.start⟩ : String.Pos.Raw).IsValid source := by
  obtain ⟨before, c, rest, rfl, hbefore, -⟩ := h
  rw [← hbefore, String.append_assoc]
  exact String.Pos.Raw.isValid_rawEndPos.append_right _

/-! ### Errors in their source -/

/-- What an obstacle says about the text of its error, if a piece is ahead. -/
theorem Obstacle.text_eq {extent : Nat} {s : Expectation} {q : Piece} {qs : List Piece}
    (h : Obstacle extent s (q :: qs) e) {t : Token} (ht : q.token? = some t) {text : String}
    (htext : e = .unexpectedToken text e.position ∨ e = .trailingToken text e.position) :
    text = t.text := by
  cases h with
  | stray hq => cases hq.symm.trans ht
  | unexpected hq | trailing hq =>
    obtain rfl := Option.some.inj (hq.symm.trans ht)
    simpa [SyntaxError.position, eq_comm] using htext
  | unclosed | tooDeep => simp at htext

/-- An obstacle where no piece is ahead is one of three at the end of the source. -/
theorem Obstacle.eq_of_nil {extent : Nat} {s : Expectation} (h : Obstacle extent s [] e) :
    e = .unexpectedEnd extent ∨ e = .unclosedGroup extent ∨ e = .tooDeep extent := by
  cases h with
  | ended => exact .inl rfl
  | unclosedAtEnd => exact .inr (.inl rfl)
  | tooDeep => exact .inr (.inr rfl)

/-- Where a piece is ahead, the obstacle is not that the source ends. -/
theorem Obstacle.ne_unexpectedEnd {extent : Nat} {s : Expectation} {q : Piece} {qs : List Piece}
    (h : Obstacle extent s (q :: qs) e) (p : Nat) : e ≠ .unexpectedEnd p := by
  cases h <;> exact nofun

/-- An obstacle ahead of some pieces of a source locates its error in the source. -/
theorem Obstacle.isLocated {s : Expectation} {ps qs : List Piece}
    (h : Obstacle source.utf8ByteSize s qs e) (hpieces : (pieces source).toList = ps ++ qs) :
    e.IsLocated source := by
  have hposition := h.position_eq
  cases qs with
  | nil =>
    have hend : e.position = source.utf8ByteSize := hposition
    refine ⟨?_, Nat.le_of_eq hend, fun _ ↦ hend, fun _ ↦ ?_,
      fun hlt ↦ absurd hend (Nat.ne_of_lt hlt)⟩
    · rw [hend]
      exact String.Pos.Raw.isValid_rawEndPos
    · rw [hend]
      exact h.eq_of_nil
  | cons q qs =>
    have hq : q ∈ (pieces source).toList := by rw [hpieces]; simp
    have hstands := standsIn_of_mem_pieces hq
    have hlt := ((inRow_pieces source).start_bounds q hq).2
    have hstart : e.position = q.start := hposition
    rw [← hstart] at hlt
    refine ⟨?_, Nat.le_of_lt hlt, fun hended ↦ absurd hended (h.ne_unexpectedEnd _),
      fun hend ↦ absurd hend (Nat.ne_of_lt hlt), fun _ ↦ ⟨q, hq, hstart.symm, hstands, ?_, ?_⟩⟩
    · rw [hstart]
      exact hstands.isValid
    · rw [hstart]
      exact h.eq_of_stray q rfl
    · exact fun t ht text ↦ h.text_eq ht

/-- **Every reported position and text can be trusted.** The position of an error of evaluation is
between two characters of the source. It is at the end where the end is unexpected, and otherwise
only where a group is open or the nesting is too deep. Before the end a token or a stray character
starts there, and it is this one that the error names, if it names any. -/
theorem evaluate_error_isLocated (lib : Elementary) (source : String) (e : SyntaxError)
    (h : evaluate lib source = .error e) : e.IsLocated source := by
  obtain ⟨ps, ts, s, qs, hpieces, -, -, hobstacle⟩ := exists_obstacle_of_evaluateWithin h
  exact hobstacle.isLocated hpieces

/-- In `1 + é` the letter of two bytes is found behind the second space. -/
theorem evaluate_error_isLocated_letter :
    evaluate .machine "1 + é " = .error (.unexpectedToken "é" 4) ∧
      SyntaxError.IsLocated "1 + é " (.unexpectedToken "é" 4) := by
  have h : evaluate .machine "1 + é " = .error (.unexpectedToken "é" 4) := by decide +kernel
  exact ⟨h, evaluate_error_isLocated .machine _ _ h⟩

/-- An open group can be found at the end, and so can a level too much. -/
example : evaluate .machine "(1 " = .error (.unclosedGroup 3) ∧
    evaluateWithin (some 2) .machine "--" = .error (.tooDeep 2) := by
  decide +kernel

end DeskCalculator
