import DeskCalculator.Proofs.Scan.Lexeme
import DeskCalculator.Proofs.Scan.Row

/-!
# Nothing is lost in the scan

The pieces of a source and the spaces between them make up the source. Each piece is the longest
lexeme that begins the text where the piece starts, or a single character where no lexeme begins.
Both are read off one description of the scan, `Split`, which says how a text is taken apart and
does not mention how the tokens are found.

## Main definitions

* `Piece.IsLongestAt`: the piece that the longest match asks for at the beginning of a text.
* `Split`: a text is taken apart by longest match.
* `withGaps`: the text of pieces with spaces on all bytes between them.

## Main results

* `split_scan`: the scan takes a text apart by longest match.
* `pieces_longestMatch`: the pieces of a source, with nothing but spaces between them.
-/

namespace DeskCalculator

/-- The piece that stands at the beginning of a text: the longest lexeme there, and a stray
character if there is none. -/
structure Piece.IsLongestAt (p : Piece) (text : List Char) : Prop where
  /-- The piece begins the text. -/
  begins : p.spelling.toList <+: text
  /-- Where a lexeme begins the text, the piece is a token whose lexeme is the longest one. -/
  lexeme : (∃ cs, IsLexeme cs ∧ cs <+: text) → ∃ t, p.token? = some t ∧
    t.HasLexeme p.spelling.toList ∧
      ∀ cs, IsLexeme cs → cs <+: text → cs.length ≤ p.spelling.toList.length
  /-- Where no lexeme begins the text, the piece is one character, and no space. -/
  stray : (¬ ∃ cs, IsLexeme cs ∧ cs <+: text) → p.token? = none ∧
    ∃ c, c ≠ ' ' ∧ p.spelling.toList = [c]

/-- A text that starts at a byte is taken apart by longest match. -/
inductive Split : Nat → List Char → List Piece → Prop
  /-- Nothing is left. -/
  | done {start} : Split start [] []
  /-- A space is skipped. -/
  | space {start rest ps} (h : Split (start + 1) rest ps) : Split start (' ' :: rest) ps
  /-- A piece is taken from the text. -/
  | piece {p rest ps} (hp : p.IsLongestAt (p.spelling.toList ++ rest)) (h : Split p.stop rest ps) :
      Split p.start (p.spelling.toList ++ rest) (p :: ps)

/-- The text of pieces between two bytes, with a space on every byte that is in none of them. -/
def withGaps (stop : Nat) : Nat → List Piece → List Char
  | start, [] => List.replicate (stop - start) ' '
  | start, p :: ps =>
    List.replicate (p.start - start) ' ' ++ (p.spelling.toList ++ withGaps stop p.stop ps)

variable {start stop b : Nat} {text : List Char} {ps : List Piece}

/-- The first piece of a text that does not begin with a space is the longest one. -/
theorem Piece.isLongestAt_first (start : Nat) {c : Char} (hc : c ≠ ' ') (rest : List Char) :
    (first start c rest).1.IsLongestAt (c :: rest) := by
  have hbegins : (first start c rest).1.spelling.toList <+: c :: rest :=
    ⟨_, append_of_first start c rest⟩
  refine ⟨hbegins, ?_, ?_⟩ <;> unfold first
  · rintro ⟨cs, hcs, hfront⟩
    cases hread : Token.read? (c :: rest) with
    | none => exact absurd hcs (Token.not_isLexeme_of_read? hread hfront)
    | some found =>
      refine ⟨_, rfl, ?_⟩
      rw [String.toList_ofList]
      exact ⟨Token.hasLexeme_of_read? hread, fun cs ↦ Token.length_le_of_read? hread⟩
  · intro hnone
    cases hread : Token.read? (c :: rest) with
    | none => exact ⟨rfl, c, hc, String.toList_ofList⟩
    | some found =>
      have hlexeme := (Token.hasLexeme_of_read? hread).isLexeme
      exact absurd ⟨_, hlexeme, _, (Token.append_of_read? hread).1⟩ hnone

/-- The scan takes a text apart by longest match. -/
theorem split_scan (start : Nat) (text : List Char) : Split start text (scan start text) := by
  induction start, text, (#[] : Array Piece) using scanFrom.induct with
  | case1 start =>
    rw [scan_nil]
    exact .done
  | case2 start _ rest ih =>
    rw [scan_space]
    exact .space ih
  | case3 start _ c rest hc ih =>
    have hfirst := Piece.isLongestAt_first start hc rest
    rw [← Piece.append_of_first start c rest] at hfirst
    have hsplit := Split.piece hfirst ih
    rwa [Piece.append_of_first, Piece.start_first, ← scan_piece start rest hc] at hsplit

namespace Split

/-- Every piece stands in the text where it starts, and is the longest one there. -/
theorem exists_isLongestAt (h : Split start text ps) : ∀ p ∈ ps, ∃ before rest,
    text = before ++ (p.spelling.toList ++ rest) ∧
      start + (String.ofList before).utf8ByteSize = p.start ∧
      p.IsLongestAt (p.spelling.toList ++ rest) := by
  induction h with
  | done => simp
  | space _ ih =>
    intro p hp
    obtain ⟨before, rest, rfl, hstart, hlongest⟩ := ih p hp
    refine ⟨' ' :: before, rest, rfl, ?_, hlongest⟩
    rw [utf8ByteSize_ofList_space, ← Nat.add_assoc, hstart]
  | @piece q more qs hq _ ih =>
    rw [List.forall_mem_cons]
    refine ⟨⟨[], more, rfl, rfl, hq⟩, fun p hp ↦ ?_⟩
    obtain ⟨before, rest, rfl, hstart, hlongest⟩ := ih p hp
    refine ⟨q.spelling.toList ++ before, rest, (List.append_assoc _ _ _).symm, ?_, hlongest⟩
    rw [utf8ByteSize_ofList_append, String.ofList_toList, ← Nat.add_assoc, ← hstart, Piece.stop]

/-- On a byte of the text that is in no piece stands a space. -/
theorem exists_space (h : Split start text ps) (hstart : start ≤ b)
    (hstop : b < start + (String.ofList text).utf8ByteSize)
    (hb : ∀ p ∈ ps, ¬ (p.start ≤ b ∧ b < p.stop)) : ∃ before rest,
      text = before ++ ' ' :: rest ∧ start + (String.ofList before).utf8ByteSize = b := by
  induction h with
  | done => exact absurd hstop (Nat.not_lt.mpr hstart)
  | @space start rest ps _ ih =>
    rw [utf8ByteSize_ofList_space, ← Nat.add_assoc] at hstop
    rcases Nat.eq_or_lt_of_le hstart with rfl | hlt
    · exact ⟨[], rest, rfl, rfl⟩
    · obtain ⟨before, rest, rfl, hbefore⟩ := ih hlt hstop hb
      refine ⟨' ' :: before, rest, rfl, ?_⟩
      rw [utf8ByteSize_ofList_space, ← Nat.add_assoc, hbefore]
  | @piece q more qs _ _ ih =>
    rw [utf8ByteSize_ofList_append, String.ofList_toList, ← Nat.add_assoc] at hstop
    obtain ⟨hq, hqs⟩ := List.forall_mem_cons.mp hb
    have hle : q.stop ≤ b := Nat.not_lt.mp fun hlt ↦ hq ⟨hstart, hlt⟩
    obtain ⟨before, rest, rfl, hbefore⟩ := ih hle hstop hqs
    refine ⟨q.spelling.toList ++ before, rest, (List.append_assoc _ _ _).symm, ?_⟩
    rw [utf8ByteSize_ofList_append, String.ofList_toList, ← Nat.add_assoc, ← hbefore, Piece.stop]

/-- No piece starts before the text. -/
theorem le_start (h : Split start text ps) : ∀ p ∈ ps.head?, start ≤ p.start := by
  induction h with
  | done => simp
  | space _ ih => exact fun p hp ↦ Nat.le_of_succ_le (ih p hp)
  | piece => simp

/-- The pieces and the spaces between them make up the text. -/
theorem withGaps_eq (h : Split start text ps) :
    withGaps (start + (String.ofList text).utf8ByteSize) start ps = text := by
  induction h with
  | done => exact congrArg (List.replicate · ' ') (Nat.sub_self _)
  | @space start rest ps h ih =>
    rw [utf8ByteSize_ofList_space, ← Nat.add_assoc]
    conv_rhs => rw [← ih]
    have hle := h.le_start
    cases ps with
    | nil =>
      rw [withGaps, withGaps, ← List.replicate_succ]
      congr 1
      omega
    | cons p ps =>
      have hp := hle p rfl
      rw [withGaps, withGaps, ← List.cons_append, ← List.replicate_succ]
      congr 2
      omega
  | @piece q more qs _ _ ih =>
    rw [utf8ByteSize_ofList_append, String.ofList_toList, ← Nat.add_assoc, withGaps, Nat.sub_self,
      List.replicate_zero, List.nil_append, ← Piece.stop, ih]

end Split

/-- **Nothing is lost in the scan, and the longest match decides.** The pieces of a source are not
empty and stand one behind the other. Each one stands in the source where it starts, and is the
longest lexeme that begins there, or one character if there is none. On every other byte stands a
space, so the pieces with spaces between them make up the source. The double of every numeral can be
read, is a number and has no sign. -/
theorem pieces_longestMatch (source : String) :
    InRow 0 (pieces source).toList source.utf8ByteSize ∧
    (∀ p ∈ (pieces source).toList, ∃ before rest,
      source.toList = before ++ (p.spelling.toList ++ rest) ∧
        (String.ofList before).utf8ByteSize = p.start ∧
        p.IsLongestAt (p.spelling.toList ++ rest)) ∧
    (∀ b < source.utf8ByteSize, (∀ p ∈ (pieces source).toList, ¬ (p.start ≤ b ∧ b < p.stop)) →
      ∃ before rest, source.toList = before ++ ' ' :: rest ∧
        (String.ofList before).utf8ByteSize = b) ∧
    String.ofList (withGaps source.utf8ByteSize 0 (pieces source).toList) = source ∧
    ∀ cs, IsNumeral cs →
      ∃ l, Literal.read? cs = some l ∧ l.value.isNaN = false ∧ isNegative l.value = false := by
  have hsplit : Split 0 source.toList (pieces source).toList := split_scan 0 source.toList
  have hbytes : 0 + (String.ofList source.toList).utf8ByteSize = source.utf8ByteSize := by
    rw [Nat.zero_add, String.ofList_toList]
  refine ⟨inRow_pieces source, fun p hp ↦ ?_, fun b hb hout ↦ ?_, ?_, fun cs hcs ↦
    hcs.exists_literal⟩
  · obtain ⟨before, rest, htext, hstart, hlongest⟩ := hsplit.exists_isLongestAt p hp
    exact ⟨before, rest, htext, by rwa [Nat.zero_add] at hstart, hlongest⟩
  · obtain ⟨before, rest, htext, hbefore⟩ :=
      hsplit.exists_space (Nat.zero_le b) (by rwa [hbytes]) hout
    exact ⟨before, rest, htext, by rwa [Nat.zero_add] at hbefore⟩
  · have hgaps := hsplit.withGaps_eq
    rw [hbytes] at hgaps
    rw [hgaps, String.ofList_toList]

/-- The longest match gives the second point to the numeral behind it, and the first one to none. -/
example : (pieces "1..2").toList.map (·.spelling) = ["1", ".", ".2"] := by decide +kernel

end DeskCalculator
