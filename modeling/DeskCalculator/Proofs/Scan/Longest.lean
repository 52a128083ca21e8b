import DeskCalculator.Piece
import DeskCalculator.Proofs.Number.PlainText
import Mathlib.Data.List.TakeWhile

/-!
# The longest piece depends on little of what follows

A numeral ends where what follows begins with neither a digit nor, as long as it has no fraction, a
point and a digit. Whether a piece is found at some place, and which one, depends on what follows in
this respect only. So the piece stays what it is when the text behind it is exchanged for one that
begins with no digit and no fraction of its own.

## Main definitions

* `BeginsNoMore`: one text begins with a digit or a fraction only if another one does.

## Main results

* `Numeral.read?_eq_some_iff`, `Numeral.read?_eq_none_iff`: which numeral begins a text.
* `Piece.first_append`: a piece stays what it is in front of another text.
-/

namespace DeskCalculator

variable {text rest rest' : List Char} {n : Numeral}

theorem not_beginsDigit_dropWhile (text : List Char) :
    ¬ BeginsDigit (text.dropWhile Char.isDigit) := by
  rintro ⟨c, hc, hdigit⟩
  have hnot := List.head?_dropWhile_not Char.isDigit text
  rw [Option.mem_def.mp hc] at hnot
  exact Bool.false_ne_true (hnot.symm.trans hdigit)

theorem beginsDigit_cons_iff {c : Char} : BeginsDigit (c :: rest) ↔ c.isDigit = true := by
  simp [BeginsDigit]

theorem beginsFraction_cons_iff {c : Char} :
    BeginsFraction (c :: rest) ↔ c = '.' ∧ BeginsDigit rest := by
  simp [BeginsFraction, and_assoc]

/-- A text begins with a digit exactly where digits can be taken. -/
theorem takeWhile_isDigit_ne_nil_iff : text.takeWhile Char.isDigit ≠ [] ↔ BeginsDigit text := by
  cases text with
  | nil => simp [BeginsDigit]
  | cons c cs => by_cases hc : c.isDigit <;> simp [BeginsDigit, hc]

/-- A text begins with a digit or a fraction only if another one does. -/
structure BeginsNoMore (rest' rest : List Char) : Prop where
  /-- A digit is there in the other text as well. -/
  digit : BeginsDigit rest' → BeginsDigit rest
  /-- A fraction is there in the other text as well. -/
  fraction : BeginsFraction rest' → BeginsFraction rest

namespace Numeral

/-- A numeral stops at every text that begins with no more than one at which it stops. -/
theorem StopsAt.mono (h : n.StopsAt rest) (hmore : BeginsNoMore rest' rest) : n.StopsAt rest' :=
  ⟨h.1 ∘ hmore.digit, fun hnone ↦ h.2 hnone ∘ hmore.fraction⟩

/-- What is read behind a point is digits, and all of them. -/
theorem isDigit_of_readFraction? {ds : List Char} (h : readFraction? text = some (ds, rest)) :
    (∀ c ∈ ds, c.isDigit) ∧ ¬ BeginsDigit rest := by
  unfold readFraction? at h
  split at h
  · next more =>
    split at h
    · cases h
    · obtain ⟨rfl, rfl⟩ := Prod.mk.inj (Option.some.inj h)
      exact ⟨fun c ↦ List.mem_takeWhile_imp, not_beginsDigit_dropWhile more⟩
  · cases h

/-- A numeral that is read is well-formed, and stops at what is left. -/
theorem wellFormed_of_read? (h : read? text = some (n, rest)) : n.WellFormed ∧ n.StopsAt rest := by
  have hwhole : ∀ c ∈ text.takeWhile Char.isDigit, c.isDigit := fun c ↦ List.mem_takeWhile_imp
  unfold read? at h
  split at h
  · next ds more hfraction =>
    obtain ⟨rfl, rfl⟩ := Prod.mk.inj (Option.some.inj h)
    obtain ⟨hds, hstop⟩ := isDigit_of_readFraction? hfraction
    have hne := (readFraction?_eq_some hfraction).1
    exact ⟨.of_fraction hwhole hds hne, hstop, nofun⟩
  · next hfraction =>
    split at h
    · cases h
    · next hne =>
      obtain ⟨rfl, rfl⟩ := Prod.mk.inj (Option.some.inj h)
      exact ⟨.of_whole hwhole hne, not_beginsDigit_dropWhile text,
        fun _ ↦ readFraction?_eq_none_iff.mp hfraction⟩

/-- The numeral that begins a text is the one that stops at what follows it. -/
theorem read?_eq_some_iff :
    read? text = some (n, rest) ↔ n.text ++ rest = text ∧ n.WellFormed ∧ n.StopsAt rest := by
  constructor
  · exact fun h ↦ ⟨text_append_of_read? h, wellFormed_of_read? h⟩
  · rintro ⟨rfl, hform, hstop⟩
    exact read?_append hform hstop

/-- No numeral begins a text that begins with neither a digit nor a fraction. -/
theorem read?_eq_none_iff : read? text = none ↔ ¬ BeginsDigit text ∧ ¬ BeginsFraction text := by
  rw [← takeWhile_isDigit_ne_nil_iff, not_not]
  have hdrop (htake : text.takeWhile Char.isDigit = []) : text.dropWhile Char.isDigit = text := by
    simpa [htake] using List.takeWhile_append_dropWhile (p := Char.isDigit) (l := text)
  unfold read?
  split
  · next ds more hfraction =>
    refine iff_of_false (Option.some_ne_none _) fun ⟨htake, hnone⟩ ↦ ?_
    rw [hdrop htake, readFraction?_eq_none_iff.mpr hnone] at hfraction
    cases hfraction
  · next hfraction =>
    split
    · next htake =>
      rw [hdrop htake] at hfraction
      exact iff_of_true rfl ⟨htake, readFraction?_eq_none_iff.mp hfraction⟩
    · next htake => exact iff_of_false (Option.some_ne_none _) fun h ↦ htake h.1

/-- Where no numeral begins, none begins when less follows the first character. -/
theorem read?_cons_eq_none {c : Char} (h : read? (c :: rest) = none)
    (hmore : BeginsNoMore rest' rest) : read? (c :: rest') = none := by
  rw [read?_eq_none_iff, beginsDigit_cons_iff, beginsFraction_cons_iff] at h ⊢
  exact ⟨h.1, fun ⟨hc, hdigit⟩ ↦ h.2 ⟨hc, hmore.digit hdigit⟩⟩

end Numeral

/-- A token stays what it is in front of a text that begins with no more than the one behind it. -/
theorem Token.read?_append {t : Token} {spelling : List Char}
    (h : read? text = some (t, spelling, rest)) (hmore : BeginsNoMore rest' rest) :
    read? (spelling ++ rest') = some (t, spelling, rest') := by
  unfold read? at h
  split at h
  · next n more hn =>
    obtain ⟨rfl, rfl, rfl⟩ := by simpa using h
    obtain ⟨-, hform, hstop⟩ := Numeral.read?_eq_some_iff.mp hn
    unfold read?
    rw [Numeral.read?_append hform (hstop.mono hmore)]
  · next hn =>
    split at h
    · next c more =>
      cases hmark : ofMark? c with
      | none => simp [hmark] at h
      | some mark =>
        obtain ⟨rfl, rfl, rfl⟩ := by simpa [hmark] using h
        rw [List.singleton_append, read?, Numeral.read?_cons_eq_none hn hmore, hmark]
        rfl
    · cases h

/-- Where no token begins, none begins when less follows the first character. -/
theorem Token.read?_cons_eq_none {c : Char} (h : read? (c :: rest) = none)
    (hmore : BeginsNoMore rest' rest) : read? (c :: rest') = none := by
  unfold read? at h
  split at h
  · cases h
  · next hn =>
    rw [read?, Numeral.read?_cons_eq_none hn hmore]
    simpa using h

/-- The first piece stays what it is in front of a text that begins with no more than the one behind
it, wherever it starts. -/
theorem Piece.first_append (start start' : Nat) {c : Char} {cs : List Char}
    (hspelling : (first start c rest).1.spelling.toList = c :: cs)
    (hmore : BeginsNoMore rest' (first start c rest).2) :
    first start' c (cs ++ rest') = ({ (first start c rest).1 with start := start' }, rest') := by
  unfold first at hspelling hmore ⊢
  cases hread : Token.read? (c :: rest) with
  | none =>
    rw [hread] at hspelling hmore
    obtain rfl : cs = [] := by simpa using hspelling.symm
    rw [List.nil_append, Token.read?_cons_eq_none hread hmore]
  | some found =>
    obtain ⟨t, spelling, more⟩ := found
    rw [hread] at hspelling hmore
    obtain rfl : spelling = c :: cs := by simpa using hspelling
    have hread' := Token.read?_append hread hmore
    rw [List.cons_append] at hread'
    rw [hread']

end DeskCalculator
