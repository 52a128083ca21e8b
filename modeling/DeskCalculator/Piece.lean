import DeskCalculator.Token

/-!
# The pieces of a source

Any text at all is a row of *pieces* with spaces between them. A piece is the longest token that
begins where the piece before it and the spaces behind that have ended. Where no token begins, it is
a single *stray* character. Only the character U+0020 is a space. A piece knows the byte of the
UTF-8 form of the source at which it starts.

## Main definitions

* `Piece`: a token or a stray character, with its spelling and its place.
* `pieces`: the pieces of a source, in order.

## Main results

* `Piece.append_of_first`: the first piece and what is left make up the text.
* `scanFrom_append`: what has been found already stays in front.
-/

namespace DeskCalculator

/-- A part of a source without the spaces around it. -/
structure Piece where
  /-- The token, or nothing for a stray character. -/
  token? : Option Token
  /-- The piece as it stands in the source. -/
  spelling : String
  /-- The byte at which the piece starts. -/
  start : Nat
deriving DecidableEq

namespace Piece

/-- The byte after the last one of a piece. -/
def stop (p : Piece) : Nat := p.start + p.spelling.utf8ByteSize

/-- The piece that begins with the character `c` at the byte `start`, with what is left. -/
def first (start : Nat) (c : Char) (rest : List Char) : Piece × List Char :=
  match Token.read? (c :: rest) with
  | some (t, spelling, more) => (⟨some t, String.ofList spelling, start⟩, more)
  | none => (⟨none, String.ofList [c], start⟩, rest)

theorem append_of_first (start : Nat) (c : Char) (rest : List Char) :
    (first start c rest).1.spelling.toList ++ (first start c rest).2 = c :: rest := by
  unfold first
  split
  · next h => simpa using (Token.append_of_read? h).1
  · simp

theorem spelling_first_ne_nil (start : Nat) (c : Char) (rest : List Char) :
    (first start c rest).1.spelling.toList ≠ [] := by
  unfold first
  split
  · next h => simpa using (Token.append_of_read? h).2
  · simp

@[simp] theorem start_first (start : Nat) (c : Char) (rest : List Char) :
    (first start c rest).1.start = start := by
  unfold first
  split <;> rfl

/-- What is left behind the first piece is shorter than the text. -/
theorem length_first_le (start : Nat) (c : Char) (rest : List Char) :
    (first start c rest).2.length ≤ rest.length := by
  have happend := congrArg List.length (append_of_first start c rest)
  have hne := List.length_pos_iff.2 (spelling_first_ne_nil start c rest)
  simp only [List.length_append, List.length_cons] at happend
  omega

end Piece

/-- The pieces of a text whose first character is at the byte `start`, put behind those found
already. -/
def scanFrom (start : Nat) (text : List Char) (found : Array Piece) : Array Piece :=
  match text with
  | [] => found
  | c :: rest =>
    if c = ' ' then scanFrom (start + 1) rest found
    else
      scanFrom (Piece.first start c rest).1.stop (Piece.first start c rest).2
        (found.push (Piece.first start c rest).1)
termination_by text.length
decreasing_by
  · simp
  · simpa using Nat.lt_succ_of_le (Piece.length_first_le start c rest)

/-- The pieces of a source, in order. -/
def pieces (source : String) : Array Piece := scanFrom 0 source.toList #[]

/-- What has been found already stays in front of what is found later. -/
theorem scanFrom_append (start : Nat) (text : List Char) (before found : Array Piece) :
    scanFrom start text (before ++ found) = before ++ scanFrom start text found := by
  fun_induction scanFrom start text found with
  | case1 => rw [scanFrom]
  | case2 start found rest ih => rw [scanFrom, if_pos rfl, ih]
  | case3 start found c rest hc ih => rw [scanFrom, if_neg hc, ← ih, Array.push_append]

end DeskCalculator
