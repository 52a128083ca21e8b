import DeskCalculator.Decimal.Nearest

/-!
# Numerals

A numeral is written with decimal digits and perhaps a point: `42`, `3.14`, `.5`. It has no sign and
no exponent. In an expression a point is always followed by a digit, so `1.` is the numeral `1` and
a point of its own.

## Main definitions

* `Numeral`: the digits before the point, and those after it if there is a point.
* `Numeral.text`, `Numeral.value`: its written form and the double it denotes.
* `Numeral.read?`: the longest numeral that begins a text.
-/

namespace DeskCalculator

/-- An unsigned decimal number as it is written. -/
structure Numeral where
  /-- The digits before the point. -/
  whole : List Char
  /-- The digits after the point, if there is a point. -/
  fraction? : Option (List Char)
deriving DecidableEq, Repr

namespace Numeral

/-- The digits after the point. -/
def fraction (n : Numeral) : List Char := n.fraction?.getD []

/-- The written form. -/
def text (n : Numeral) : List Char :=
  n.whole ++ match n.fraction? with
    | none => []
    | some digits => '.' :: digits

/-- The number that is written, as a decimal: all digits as one number, with the point moved back
over those that follow it. -/
def decimal (n : Numeral) : Decimal where
  coefficient := Nat.ofDigitChars 10 (n.whole ++ n.fraction) 0
  exponent := -n.fraction.length

/-- The double nearest to the number that is written. -/
def value (n : Numeral) : Float := n.decimal.toFloat

/-- The digits after a point that begins a text, with the rest of the text. There must be one. -/
def readFraction? (text : List Char) : Option (List Char × List Char) :=
  match text with
  | '.' :: more =>
    if more.takeWhile Char.isDigit = [] then none
    else some (more.takeWhile Char.isDigit, more.dropWhile Char.isDigit)
  | _ => none

/-- The longest numeral that begins a text, with the rest of the text. A point belongs to it only
if a digit follows. -/
def read? (text : List Char) : Option (Numeral × List Char) :=
  match readFraction? (text.dropWhile Char.isDigit) with
  | some (digits, rest) => some (⟨text.takeWhile Char.isDigit, some digits⟩, rest)
  | none =>
    if text.takeWhile Char.isDigit = [] then none
    else some (⟨text.takeWhile Char.isDigit, none⟩, text.dropWhile Char.isDigit)

theorem readFraction?_eq_some {text digits rest : List Char}
    (h : readFraction? text = some (digits, rest)) :
    digits ≠ [] ∧ text = '.' :: (digits ++ rest) := by
  unfold readFraction? at h
  split at h
  · split at h
    · cases h
    · next hne =>
      obtain ⟨rfl, rfl⟩ := Prod.mk.inj (Option.some.inj h)
      exact ⟨hne, by rw [List.takeWhile_append_dropWhile]⟩
  · cases h

/-- What is read and what is left make up the text. -/
theorem text_append_of_read? {text : List Char} {n : Numeral} {rest : List Char}
    (h : read? text = some (n, rest)) : n.text ++ rest = text := by
  unfold read? at h
  split at h
  · next digits more hf =>
    obtain ⟨rfl, rfl⟩ := Prod.mk.inj (Option.some.inj h)
    have htext := (readFraction?_eq_some hf).2
    simp [Numeral.text, ← htext]
  · split at h
    · cases h
    · obtain ⟨rfl, rfl⟩ := Prod.mk.inj (Option.some.inj h)
      simp [Numeral.text]

/-- A numeral that is read is not empty. -/
theorem text_ne_nil_of_read? {text : List Char} {n : Numeral} {rest : List Char}
    (h : read? text = some (n, rest)) : n.text ≠ [] := by
  unfold read? at h
  split at h
  · obtain ⟨rfl, rfl⟩ := Prod.mk.inj (Option.some.inj h)
    simp [Numeral.text]
  · split at h
    · cases h
    · next hne =>
      obtain ⟨rfl, rfl⟩ := Prod.mk.inj (Option.some.inj h)
      simpa [Numeral.text] using hne

end Numeral

end DeskCalculator
