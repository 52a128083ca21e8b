import DeskCalculator.Text.Blank
import Mathlib.Data.List.TakeWhile

/-!
# Words between blanks

The words of a list of characters are told here without a way to find them: a word has no blanks, is
not empty and does not go on behind its end, and there are only blanks around words. The search
finds these words and no others.

## Main definitions

* `IsWords`: the words of a list of characters.

## Main results

* `words_append_of_blank`, `words_append_word`: blanks are skipped, and a word is found as a whole.
* `words_eq_iff`: the words that are found.
-/

namespace DeskCalculator

/-- The words of a list of characters. -/
inductive IsWords : List Char → List (List Char) → Prop
  /-- Blanks alone have no words. -/
  | blank {text} (h : ∀ c ∈ text, isBlank c = true) : IsWords text []
  /-- Behind blanks, if any, a word goes on up to the next blank, or to the end. -/
  | word {gap word rest ws} (hgap : ∀ c ∈ gap, isBlank c = true) (hne : word ≠ [])
      (hword : ∀ c ∈ word, isBlank c = false) (hend : ∀ c ∈ rest.head?, isBlank c = true)
      (hrest : IsWords rest ws) : IsWords (gap ++ (word ++ rest)) (word :: ws)

variable {text gap word rest : List Char} {ws : List (List Char)}

/-- Blanks in front of words are skipped. -/
theorem words_append_of_blank (h : ∀ c ∈ gap, isBlank c = true) (rest : List Char) :
    words (gap ++ rest) = words rest := by
  have hdrop : (gap ++ rest).dropWhile isBlank = rest.dropWhile isBlank :=
    List.dropWhile_append_of_pos h
  rw [words.eq_def, words.eq_def rest, hdrop]

theorem words_of_blank (h : ∀ c ∈ text, isBlank c = true) : words text = [] := by
  rw [← List.append_nil text, words_append_of_blank h]
  cbv

/-- A word is found as a whole. -/
theorem words_append_word (hne : word ≠ []) (hword : ∀ c ∈ word, isBlank c = false)
    (hend : ∀ c ∈ rest.head?, isBlank c = true) : words (word ++ rest) = word :: words rest := by
  obtain ⟨c, cs, rfl⟩ := List.exists_cons_of_ne_nil hne
  obtain ⟨hc, hcs⟩ := List.forall_mem_cons.mp hword
  have hfront : (c :: cs ++ rest).dropWhile isBlank = c :: (cs ++ rest) := by simp [hc]
  have hinside : ∀ d ∈ cs, (!isBlank d) = true := fun d hd ↦ by rw [hcs d hd]; rfl
  have hstop : rest.takeWhile (!isBlank ·) = [] ∧ rest.dropWhile (!isBlank ·) = rest := by
    cases rest with
    | nil => exact ⟨rfl, rfl⟩
    | cons d ds =>
      have hd : isBlank d = true := hend d rfl
      simp [hd]
  rw [words.eq_def, hfront]
  simp only [List.takeWhile_append_of_pos hinside, List.dropWhile_append_of_pos hinside, hstop,
    List.append_nil]

/-- The words of a list are found. -/
theorem IsWords.words_eq (h : IsWords text ws) : words text = ws := by
  induction h with
  | blank h => exact words_of_blank h
  | word hgap hne hword hend _ ih =>
    rw [words_append_of_blank hgap, words_append_word hne hword hend, ih]

/-- What is left behind the longest front with a property does not begin with it. -/
theorem eq_false_of_mem_head?_dropWhile {p : Char → Bool} {c : Char}
    (h : c ∈ (text.dropWhile p).head?) : p c = false := by
  have hnot := List.head?_dropWhile_not p text
  rwa [Option.mem_def.mp h] at hnot

/-- What is found are the words of a list. -/
theorem isWords_words (text : List Char) : IsWords text (words text) := by
  induction text using words.induct with
  | case1 text hdrop =>
    have hblank := List.dropWhile_eq_nil_iff.mp hdrop
    rw [words_of_blank hblank]
    exact .blank hblank
  | case2 text c rest hdrop ih =>
    have hsplit : text = text.takeWhile isBlank ++
        ((c :: rest.takeWhile (!isBlank ·)) ++ rest.dropWhile (!isBlank ·)) := by
      rw [List.cons_append, List.takeWhile_append_dropWhile, ← hdrop,
        List.takeWhile_append_dropWhile]
    have hgap : ∀ d ∈ text.takeWhile isBlank, isBlank d = true := fun _ ↦ List.mem_takeWhile_imp
    have hc : isBlank c = false := eq_false_of_mem_head?_dropWhile (by rw [hdrop]; rfl)
    have hword : ∀ d ∈ c :: rest.takeWhile (!isBlank ·), isBlank d = false :=
      List.forall_mem_cons.mpr ⟨hc, fun d hd ↦ by simpa using List.mem_takeWhile_imp hd⟩
    have hend : ∀ d ∈ (rest.dropWhile (!isBlank ·)).head?, isBlank d = true :=
      fun d hd ↦ by simpa using eq_false_of_mem_head?_dropWhile hd
    have hfound := IsWords.word hgap (List.cons_ne_nil _ _) hword hend ih
    rw [← hsplit] at hfound
    rwa [hfound.words_eq]

/-- The words that are found are the words of the list. -/
theorem words_eq_iff : words text = ws ↔ IsWords text ws :=
  ⟨fun h ↦ h ▸ isWords_words text, IsWords.words_eq⟩

end DeskCalculator
