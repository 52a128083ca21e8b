/-!
# Lines

A line ends with a line feed, and a carriage return directly before the line feed belongs to that
end. Behind the last line feed there may be one more line without an end, which keeps all its
characters. Lines of bytes and lines of characters are split alike, so the two characters are
parameters.

## Main definitions

* `linesBetween`: the lines of a list, for any line feed and carriage return.
* `lines`, `byteLines`: the lines of a text, and of a list of bytes in UTF-8.
-/

namespace DeskCalculator

variable {α : Type} [DecidableEq α]

/-- A line without the carriage return at its end. -/
def dropReturn (cr : α) (line : List α) : List α :=
  if line.getLast? = some cr then line.dropLast else line

/-- The lines of a list, without the line feeds and the carriage returns directly before them. -/
def linesBetween (lf cr : α) (text : List α) : List (List α) :=
  match _h : text.dropWhile (· ≠ lf) with
  | [] => if text.isEmpty then [] else [text]
  | _ :: rest => dropReturn cr (text.takeWhile (· ≠ lf)) :: linesBetween lf cr rest
termination_by text.length
decreasing_by
  have hshort := (List.dropWhile_sublist (· ≠ lf) (l := text)).length_le
  rw [_h, List.length_cons] at hshort
  omega

/-- The lines of a text. -/
def lines (text : String) : List String :=
  (linesBetween '\n' '\r' text.toList).map String.ofList

/-- The lines of a list of bytes. -/
def byteLines (bytes : List UInt8) : List (List UInt8) := linesBetween 10 13 bytes

/-- The text of which the given bytes are the UTF-8 form. -/
def decode? (bytes : List UInt8) : Option String := String.fromUTF8? ⟨bytes.toArray⟩

end DeskCalculator
