import DeskCalculator.Proofs.Descent.Relocation
import DeskCalculator.Proofs.Scan.Longest
import DeskCalculator.Proofs.Scan.Row

/-!
# The pieces of joined sources

Two sources that are joined have the pieces of both, as long as the second one does not begin with a
digit or a point, which could make a numeral at the end of the first one longer. The pieces of the
second source are moved by the length of the first. A character that is neither a space nor part of
a numeral is a piece of its own, so it keeps apart what stands on either side of it.

## Main definitions

* `IsSolitary`: characters that are always pieces of their own.
* `parenthesised`: the pieces of a source between parentheses.

## Main results

* `scan_append`: the pieces of joined texts.
* `pieces_append`: the pieces of joined sources.
* `scan_solitary`: the piece of a character of its own.
* `pieces_parenthesised`: the pieces of a source with another one between parentheses in it.
-/

namespace DeskCalculator

variable {text rest : List Char} {start : Nat}

/-- What does not begin with a digit or a point adds none to the beginning of what it follows. -/
theorem EndsNumeral.beginsNoMore_append (h : EndsNumeral rest) (text : List Char) :
    BeginsNoMore (text ++ rest) text := by
  have hdigit (text : List Char) (hbegins : BeginsDigit (text ++ rest)) : BeginsDigit text := by
    cases text with
    | nil => exact absurd hbegins (h.stopsAt ⟨[], none⟩).1
    | cons c cs => exact hbegins
  refine ⟨hdigit text, fun hbegins ↦ ?_⟩
  cases text with
  | nil => exact absurd hbegins ((h.stopsAt ⟨[], none⟩).2 rfl)
  | cons c cs =>
    rw [List.cons_append, beginsFraction_cons_iff] at hbegins
    exact beginsFraction_cons_iff.mpr ⟨hbegins.1, hdigit cs hbegins.2⟩

theorem Piece.with_start {p : Piece} (h : p.start = start) : { p with start := start } = p := by
  cases h
  rfl

/-- The first piece of a text is the first piece of joined texts. -/
theorem Piece.first_of_endsNumeral (h : EndsNumeral rest) (start : Nat) (c : Char)
    (text : List Char) : first start c (text ++ rest) =
      ((first start c text).1, (first start c text).2 ++ rest) := by
  have happend := append_of_first start c text
  have hstart := start_first start c text
  obtain ⟨d, cs, hspelling⟩ := List.exists_cons_of_ne_nil (spelling_first_ne_nil start c text)
  obtain ⟨rfl, htext⟩ : d = c ∧ cs ++ (first start c text).2 = text := by
    simpa [hspelling] using happend
  have hfirst := first_append start start hspelling
    (h.beginsNoMore_append (first start d text).2)
  rw [← List.append_assoc, htext] at hfirst
  rw [hfirst, with_start hstart]

/-- Joined texts have the pieces of both, if the second one makes no numeral longer. -/
theorem scan_append (h : EndsNumeral rest) : scan start (text ++ rest) =
    scan start text ++ scan (start + (String.ofList text).utf8ByteSize) rest := by
  induction start, text, (#[] : Array Piece) using scanFrom.induct with
  | case1 start =>
    rw [scan_nil]
    rfl
  | case2 start _ more ih =>
    rw [List.cons_append, scan_space, scan_space, ih, utf8ByteSize_ofList_space, Nat.add_assoc]
  | case3 start _ c more hc ih =>
    rw [List.cons_append, scan_piece start _ hc, Piece.first_of_endsNumeral h,
      scan_piece start more hc, ih, Piece.stop_first_add, List.cons_append]

/-- The first piece of a text that starts further back. -/
theorem Piece.first_add (start k : Nat) (c : Char) (rest : List Char) :
    first (start + k) c rest =
      ((first start c rest).1.relocate (· + k), (first start c rest).2) := by
  unfold first
  cases Token.read? (c :: rest) <;> rfl

/-- A text that starts further back has the same pieces further back. -/
theorem scan_add (start k : Nat) (text : List Char) :
    scan (start + k) text = (scan start text).map (Piece.relocate (· + k)) := by
  induction start, text, (#[] : Array Piece) using scanFrom.induct with
  | case1 start =>
    rw [scan_nil, scan_nil]
    rfl
  | case2 start _ rest ih =>
    rw [scan_space, scan_space, ← ih, Nat.add_right_comm]
  | case3 start _ c rest hc ih =>
    have hstop : ((Piece.first start c rest).1.relocate (· + k)).stop =
        (Piece.first start c rest).1.stop + k := Nat.add_right_comm ..
    rw [scan_piece _ rest hc, scan_piece start rest hc, Piece.first_add, hstop, ih, List.map_cons]

/-- Joined sources have the pieces of both, if the second one makes no numeral longer. -/
theorem pieces_append {source more : String} (h : EndsNumeral more.toList) :
    (pieces (source ++ more)).toList = (pieces source).toList ++
      (pieces more).toList.map (Piece.relocate (· + source.utf8ByteSize)) := by
  rw [toList_pieces, toList_pieces, toList_pieces, String.toList_append, scan_append h,
    String.ofList_toList, scan_add]

/-! ### Characters that are pieces of their own -/

/-- Characters that are neither spaces nor part of a numeral. -/
structure IsSolitary (c : Char) : Prop where
  /-- It is no space. -/
  ne_space : c ≠ ' '
  /-- It is no digit. -/
  isDigit_eq_false : c.isDigit = false
  /-- It is no point. -/
  ne_point : c ≠ '.'

theorem IsSolitary.endsNumeral {c : Char} (h : IsSolitary c) (rest : List Char) :
    EndsNumeral (c :: rest) := by
  intro d hd
  obtain rfl : c = d := Option.some.inj hd
  exact ⟨h.isDigit_eq_false, h.ne_point⟩

/-- A character that is neither a space nor part of a numeral is a piece of its own. -/
theorem scan_solitary {c : Char} (h : IsSolitary c) (start : Nat) (rest : List Char) :
    scan start (c :: rest) = ⟨Token.ofMark? c, String.ofList [c], start⟩ ::
      scan (start + c.utf8Size) rest := by
  have hnumeral : Numeral.read? (c :: rest) = none := by
    rw [Numeral.read?_eq_none_iff, beginsDigit_cons_iff, beginsFraction_cons_iff,
      h.isDigit_eq_false]
    exact ⟨Bool.false_ne_true, fun hpoint ↦ h.ne_point hpoint.1⟩
  have htoken : Token.read? (c :: rest) = (Token.ofMark? c).map (·, [c], rest) := by
    rw [Token.read?, hnumeral]
  have hfirst : Piece.first start c rest =
      (⟨Token.ofMark? c, String.ofList [c], start⟩, rest) := by
    rw [Piece.first, htoken]
    cases Token.ofMark? c <;> rfl
  have hstop : (Piece.first start c rest).1.stop = start + c.utf8Size := by
    rw [hfirst, Piece.stop, utf8ByteSize_ofList_cons]
    rfl
  rw [scan_piece start rest h.ne_space, hstop, hfirst]

theorem isSolitary_of_ofMark? {c : Char} (h : (Token.ofMark? c).isSome) : IsSolitary c := by
  unfold Token.ofMark? at h
  split at h
  case h_8 => cases h
  all_goals exact ⟨by decide, by decide, by decide⟩

/-- The pieces of a source between parentheses, the first of which starts at the byte `start`. -/
def parenthesised (start : Nat) (source : String) : List Piece :=
  ⟨some .leftParen, "(", start⟩ ::
    ((pieces source).toList.map (Piece.relocate (· + (start + 1))) ++
      [⟨some .rightParen, ")", start + 1 + source.utf8ByteSize⟩])

/-- The pieces of a source with another one between parentheses in it. -/
theorem pieces_parenthesised (before inner behind : String) :
    (pieces (before ++ "(" ++ inner ++ ")" ++ behind)).toList =
      (pieces before).toList ++ (parenthesised before.utf8ByteSize inner ++
        (pieces behind).toList.map
          (Piece.relocate (· + (before.utf8ByteSize + inner.utf8ByteSize + 2)))) := by
  have hopen : IsSolitary '(' := isSolitary_of_ofMark? rfl
  have hclose : IsSolitary ')' := isSolitary_of_ofMark? rfl
  have htext : (before ++ "(" ++ inner ++ ")" ++ behind).toList =
      before.toList ++ '(' :: (inner.toList ++ ')' :: behind.toList) := by
    simp [String.toList_append]
  have hinner : before.utf8ByteSize + '('.utf8Size = 0 + (before.utf8ByteSize + 1) :=
    (Nat.zero_add _).symm
  have hbehind : 0 + (before.utf8ByteSize + 1) + inner.utf8ByteSize + ')'.utf8Size =
      0 + (before.utf8ByteSize + inner.utf8ByteSize + 2) := by
    have hsize : ')'.utf8Size = 1 := rfl
    omega
  rw [toList_pieces, htext, scan_append (hopen.endsNumeral _), scan_solitary hopen,
    scan_append (hclose.endsNumeral _), scan_solitary hclose, String.ofList_toList,
    String.ofList_toList, Nat.zero_add, hinner, hbehind, scan_add, scan_add]
  rw [parenthesised, toList_pieces, toList_pieces, toList_pieces, Nat.zero_add, List.cons_append,
    List.append_assoc]
  rfl

end DeskCalculator
