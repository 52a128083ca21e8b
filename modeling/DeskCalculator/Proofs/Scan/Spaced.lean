import DeskCalculator.Proofs.Descent.Relocation
import DeskCalculator.Proofs.Scan.Longest
import DeskCalculator.Proofs.Scan.Row

/-!
# Spaces put into a source

Spaces may be put in at any byte of a source that is not inside a piece: between two pieces, among
spaces that are there already, and at either end. The pieces of the source with more spaces are
those of the source before, and each of them starts further back by the number of spaces that were
put in up to its start.

## Main definitions

* `putSpaces`, `spaced`: a text, and a source, with spaces put in.
* `LeavesPieces`: no spaces are put in inside a piece.
* `movedTo`: the byte to which what starts at a byte is moved.

## Main results

* `scan_putSpaces`: the pieces and the end of a text with spaces put in.
* `pieces_spaced`: the pieces of a source with spaces put in.
-/

namespace DeskCalculator

/-- A text that starts at the byte `start`, with `gaps b` spaces put in at every byte `b` at which a
character starts or the text ends. -/
def putSpaces (gaps : Nat → Nat) (start : Nat) : List Char → List Char
  | [] => List.replicate (gaps start) ' '
  | c :: rest => List.replicate (gaps start) ' ' ++ c :: putSpaces gaps (start + c.utf8Size) rest

/-- A source with `gaps b` spaces put in at every byte `b`. -/
def spaced (gaps : Nat → Nat) (source : String) : String :=
  String.ofList (putSpaces gaps 0 source.toList)

/-- No spaces are put in strictly inside a piece. -/
def LeavesPieces (gaps : Nat → Nat) (ps : List Piece) : Prop :=
  ∀ p ∈ ps, ∀ b, p.start < b → b < p.stop → gaps b = 0

/-- The byte at which the spaces begin that are put in at a byte. -/
def gapStart (gaps : Nat → Nat) : Nat → Nat
  | 0 => 0
  | b + 1 => gapStart gaps b + gaps b + 1

/-- The byte to which something is moved that starts at a byte, when spaces are put in. -/
def movedTo (gaps : Nat → Nat) (b : Nat) : Nat := gapStart gaps b + gaps b

variable {gaps : Nat → Nat}

/-- What has no spaces put in between its bytes is moved as a whole. -/
theorem gapStart_add {b k : Nat} (hk : 0 < k) (h : ∀ i, b < i → i < b + k → gaps i = 0) :
    gapStart gaps (b + k) = movedTo gaps b + k := by
  induction k with
  | zero => omega
  | succ k ih =>
    rw [← Nat.add_assoc, gapStart]
    cases k with
    | zero => rfl
    | succ k =>
      have hlast := h (b + (k + 1)) (by omega) (by omega)
      rw [ih (by omega) fun i hi hi' ↦ h i hi (by omega), hlast]
      omega

/-- Where no spaces are put in, the characters stay together. -/
theorem putSpaces_append (cs rest : List Char) {b : Nat}
    (h : ∀ i, b ≤ i → i < b + (String.ofList cs).utf8ByteSize → gaps i = 0) :
    putSpaces gaps b (cs ++ rest) =
      cs ++ putSpaces gaps (b + (String.ofList cs).utf8ByteSize) rest := by
  induction cs generalizing b with
  | nil => rfl
  | cons c cs ih =>
    have hpos := c.utf8Size_pos
    rw [utf8ByteSize_ofList_cons] at h ⊢
    rw [List.cons_append, putSpaces, h b (Nat.le_refl b) (by omega), List.replicate_zero,
      List.nil_append, List.cons_append, ← Nat.add_assoc,
      ih fun i hi hi' ↦ h i (by omega) (by omega)]

/-- With spaces put in, a text begins with a digit only if it does so without them. -/
theorem beginsDigit_of_putSpaces {b : Nat} {text : List Char}
    (h : BeginsDigit (putSpaces gaps b text)) : gaps b = 0 ∧ BeginsDigit text := by
  cases hgap : gaps b with
  | succ k => cases text <;> simp [putSpaces, hgap, List.replicate_succ, BeginsDigit] at h
  | zero =>
    refine ⟨rfl, ?_⟩
    cases text with
    | nil => simp [putSpaces, hgap, BeginsDigit] at h
    | cons c rest => simpa [putSpaces, hgap, BeginsDigit] using h

/-- With spaces put in, a text begins with no more than without them. -/
theorem beginsNoMore_putSpaces (b : Nat) (text : List Char) :
    BeginsNoMore (putSpaces gaps b text) text := by
  refine ⟨fun h ↦ (beginsDigit_of_putSpaces h).2, ?_⟩
  cases hgap : gaps b with
  | succ k => cases text <;> simp [putSpaces, hgap, List.replicate_succ, BeginsFraction]
  | zero =>
    cases text with
    | nil => simp [putSpaces, hgap, BeginsFraction]
    | cons c rest =>
      rw [putSpaces, hgap, List.replicate_zero, List.nil_append, beginsFraction_cons_iff,
        beginsFraction_cons_iff]
      exact And.imp_right fun h ↦ (beginsDigit_of_putSpaces h).2

section Step

variable {start : Nat} {c : Char} {rest : List Char} {p : Piece} {more : List Char}

/-- A piece without spaces inside it stays together when spaces are put in before and behind it. -/
theorem exists_putSpaces_first (hfirst : Piece.first start c rest = (p, more))
    (h : ∀ b, start < b → b < p.stop → gaps b = 0) :
    ∃ cs, p.spelling.toList = c :: cs ∧ putSpaces gaps start (c :: rest) =
      List.replicate (gaps start) ' ' ++ c :: (cs ++ putSpaces gaps p.stop more) := by
  have happend := Piece.append_of_first start c rest
  have hne := Piece.spelling_first_ne_nil start c rest
  have hstart := Piece.start_first start c rest
  rw [hfirst] at happend hne hstart
  obtain ⟨d, cs, hspelling⟩ := List.exists_cons_of_ne_nil hne
  obtain ⟨rfl, rfl⟩ : d = c ∧ cs ++ more = rest := by simpa [hspelling] using happend
  have hstop : p.stop = start + d.utf8Size + (String.ofList cs).utf8ByteSize := by
    rw [Piece.stop, hstart, Nat.add_assoc, ← utf8ByteSize_ofList_cons, ← hspelling,
      String.ofList_toList]
  have hpos := d.utf8Size_pos
  refine ⟨cs, hspelling, ?_⟩
  rw [putSpaces, putSpaces_append cs more fun i hi hi' ↦ h i (by omega) (by omega), hstop]

/-- Behind the spaces put in at its start, the first piece is found moved, in front of the rest of
the text with spaces put in. -/
theorem exists_first_putSpaces (hfirst : Piece.first start c rest = (p, more))
    (h : ∀ b, start < b → b < p.stop → gaps b = 0) :
    ∃ cs, putSpaces gaps start (c :: rest) = List.replicate (gaps start) ' ' ++ c :: cs ∧
      Piece.first (movedTo gaps start) c cs =
        (p.relocate (movedTo gaps), putSpaces gaps p.stop more) := by
  obtain ⟨cs, hspelling, hput⟩ := exists_putSpaces_first hfirst h
  have hstart := Piece.start_first start c rest
  have hcs : (Piece.first start c rest).1.spelling.toList = c :: cs := by rwa [hfirst]
  have hmore : BeginsNoMore (putSpaces gaps p.stop more) (Piece.first start c rest).2 := by
    rw [hfirst]
    exact beginsNoMore_putSpaces p.stop more
  refine ⟨cs ++ putSpaces gaps p.stop more, hput, ?_⟩
  rw [Piece.first_append start (movedTo gaps start) hcs hmore]
  rw [hfirst] at hstart ⊢
  rw [Piece.relocate, hstart]

/-- The spaces that are put in behind a piece begin where the moved piece stops. -/
theorem gapStart_stop (hfirst : Piece.first start c rest = (p, more))
    (h : ∀ b, start < b → b < p.stop → gaps b = 0) :
    gapStart gaps p.stop = (p.relocate (movedTo gaps)).stop := by
  have hstart : p.start = start := by
    simpa only [hfirst] using Piece.start_first start c rest
  have hlt : start < p.stop := by
    simpa only [hfirst] using Piece.start_lt_stop_first start c rest
  rw [Piece.stop, hstart] at h hlt
  rw [Piece.stop, Piece.stop, Piece.relocate, hstart]
  exact gapStart_add (by omega) h

/-- With spaces put in, the first piece is moved, and the rest of the text begins where the spaces
begin that are put in behind the piece. -/
theorem scan_putSpaces_piece (hc : c ≠ ' ') (hfirst : Piece.first start c rest = (p, more))
    (h : ∀ b, start < b → b < p.stop → gaps b = 0) :
    scan (gapStart gaps start) (putSpaces gaps start (c :: rest)) = p.relocate (movedTo gaps) ::
        scan (gapStart gaps p.stop) (putSpaces gaps p.stop more) ∧
      gapStart gaps start + (String.ofList (putSpaces gaps start (c :: rest))).utf8ByteSize =
        gapStart gaps p.stop + (String.ofList (putSpaces gaps p.stop more)).utf8ByteSize := by
  obtain ⟨cs, hput, hread⟩ := exists_first_putSpaces hfirst h
  have hstop := gapStart_stop hfirst h
  have hsize := Piece.stop_first_add (movedTo gaps start) c cs
  rw [hread, ← hstop] at hsize
  rw [hput, scan_replicate_append, ← movedTo, scan_piece _ _ hc, hread, ← hstop,
    utf8ByteSize_ofList_append, utf8ByteSize_ofList_replicate, ← Nat.add_assoc, ← movedTo, hsize]
  exact ⟨rfl, rfl⟩

end Step

/-- The pieces of a text with spaces put in are those of the text, each of them moved, and the end
is moved like them. -/
theorem scan_putSpaces {start : Nat} {text : List Char} (h : LeavesPieces gaps (scan start text)) :
    scan (gapStart gaps start) (putSpaces gaps start text) =
        (scan start text).map (Piece.relocate (movedTo gaps)) ∧
      gapStart gaps start + (String.ofList (putSpaces gaps start text)).utf8ByteSize =
        movedTo gaps (start + (String.ofList text).utf8ByteSize) := by
  induction start, text, (#[] : Array Piece) using scanFrom.induct with
  | case1 start =>
    rw [putSpaces, scan_replicate, scan_nil, utf8ByteSize_ofList_replicate]
    exact ⟨rfl, rfl⟩
  | case2 start _ rest ih =>
    have hone : (' ' : Char).utf8Size = 1 := rfl
    rw [scan_space] at h ⊢
    obtain ⟨hscan, hextent⟩ := ih h
    rw [putSpaces, hone, scan_replicate_append, scan_space, utf8ByteSize_ofList_append,
      utf8ByteSize_ofList_space, utf8ByteSize_ofList_space, utf8ByteSize_ofList_replicate,
      ← Nat.add_assoc start 1, ← hextent, ← hscan]
    refine ⟨rfl, ?_⟩
    rw [gapStart]
    omega
  | case3 start _ c rest hc ih =>
    have hstart := Piece.start_first start c rest
    rw [scan_piece start rest hc] at h ⊢
    obtain ⟨hpiece, hrest⟩ := List.forall_mem_cons.mp h
    rw [hstart] at hpiece
    obtain ⟨hscan, hextent⟩ := ih hrest
    obtain ⟨hfirst, hsize⟩ := scan_putSpaces_piece hc Prod.mk.eta.symm hpiece
    rw [hfirst, hsize, hscan, hextent, Piece.stop_first_add]
    exact ⟨rfl, rfl⟩

/-- The pieces of a source with spaces put in are those of the source, each of them moved, and the
end is moved like them. -/
theorem pieces_spaced {source : String} (h : LeavesPieces gaps (pieces source).toList) :
    (pieces (spaced gaps source)).toList =
        (pieces source).toList.map (Piece.relocate (movedTo gaps)) ∧
      (spaced gaps source).utf8ByteSize = movedTo gaps source.utf8ByteSize := by
  rw [toList_pieces] at h
  obtain ⟨hscan, hextent⟩ := scan_putSpaces h
  rw [gapStart, Nat.zero_add, Nat.zero_add, String.ofList_toList] at hextent
  rw [toList_pieces, toList_pieces, spaced, String.toList_ofList]
  exact ⟨hscan, hextent⟩

end DeskCalculator
