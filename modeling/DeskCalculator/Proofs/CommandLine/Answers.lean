import DeskCalculator.Proofs.Keypad.Agreement
import DeskCalculator.Proofs.Text.Lines
import Mathlib.Data.Set.List

/-!
# Answers to lines

A file and standard input are read in different ways: the one as a whole, the other line by line.
For bytes in UTF-8 this makes no difference, and every line that is not blank is answered by itself.
For other bytes nothing of a file is answered, and of standard input what comes before the first
line that is not in UTF-8; there is such a line, since lines in UTF-8 make up bytes in UTF-8.

## Main definitions

* `answerOrError`: the answer to a source, or the word for a failure.
* `writtenFor`: what is written for lines.

## Main results

* `answerInput_append`: lines in UTF-8 are answered before what comes behind them is read.
* `exists_first_undecoded`: the first line that is not in UTF-8.
* `replyToArguments_lines`: what is written for the bytes of a file and of standard input.
-/

namespace DeskCalculator

variable (lib : Elementary)

/-- The answer to a source, or the word for a failure. -/
def answerOrError (source : String) : String :=
  match answer lib source with
  | .ok text => text
  | .error _ => "Error"

/-- What is written for lines: the answer to each of them that is not blank, and a line feed. -/
def writtenFor (ls : List String) : String :=
  String.join ((ls.filter fun line ↦ !line.toList.all isBlank).map fun line ↦
    answerOrError lib line ++ "\n")

/-- The answers to lines are those of the lines that are not blank. -/
theorem flatMap_answerLine (ls : List String) : ls.flatMap (answerLine lib) =
    (ls.filter fun line ↦ !line.toList.all isBlank).map (answerOrError lib) := by
  induction ls with
  | nil => rfl
  | cons line rest ih =>
    have hanswer : shownAnswer lib line = answerOrError lib line := shownAnswer_eq lib line
    rw [List.flatMap_cons, ih, answerLine, hanswer]
    by_cases hblank : line.toList.all isBlank = true
    · simp [hblank]
    · simp [Bool.not_eq_true _ ▸ hblank]

/-- The answers are written with a line feed behind each of them. -/
theorem answerLines_eq (ls : List String) : answerLines lib ls = writtenFor lib ls := by
  rw [answerLines, flatMap_answerLine, unlines, List.map_map, writtenFor]
  rfl

theorem unlines_singleton (line : String) : unlines [line] = line ++ "\n" := by
  rw [unlines, List.map_singleton, String.join_cons, String.join_nil, String.append_empty]

theorem unlines_append (ls more : List String) :
    unlines (ls ++ more) = unlines ls ++ unlines more := by
  rw [unlines, unlines, unlines, List.map_append, String.join_append]

/-- Lines in UTF-8 are answered before what comes behind them is read. -/
theorem answerInput_append (ls : List String) (rest : List (List UInt8)) :
    answerInput lib (ls.map utf8 ++ rest) =
      ⟨answerLines lib ls ++ (answerInput lib rest).output, (answerInput lib rest).fault?⟩ := by
  induction ls with
  | nil => exact congrArg (Reply.mk · _) String.empty_append.symm
  | cons line ls ih =>
    have hlines : answerLines lib (line :: ls) =
        unlines (answerLine lib line) ++ answerLines lib ls := by
      rw [answerLines, List.flatMap_cons, unlines_append, answerLines]
    rw [List.map_cons, List.cons_append, answerInput, decode?_utf8, hlines, String.append_assoc]
    simp only [ih]

/-- If not all elements of a list have a property, there is a first one that does not. -/
theorem exists_first_not {α : Type} {p : α → Prop} {as : List α} (h : ∃ a ∈ as, ¬ p a) :
    ∃ (before : List α) (bad : α) (after : List α),
      as = before ++ bad :: after ∧ (∀ a ∈ before, p a) ∧ ¬ p bad := by
  classical
  have hsome : (as.find? (¬ p ·)).isSome = true := by simpa using h
  obtain ⟨bad, hfound⟩ := Option.isSome_iff_exists.mp hsome
  obtain ⟨hbad, before, after, rfl, hbefore⟩ := List.find?_eq_some_iff_append.mp hfound
  exact ⟨before, bad, after, rfl, by simpa using hbefore, by simpa using hbad⟩

/-- A list is split in one way only at the first element that does not have a property. -/
theorem eq_of_first_not {α : Type} {p : α → Prop} {before before' after after' : List α}
    {bad bad' : α} (hsplit : before ++ bad :: after = before' ++ bad' :: after')
    (h : ∀ a ∈ before, p a) (hbad : ¬ p bad) (h' : ∀ a ∈ before', p a) (hbad' : ¬ p bad') :
    before = before' ∧ bad = bad' := by
  induction before generalizing before' with
  | nil =>
    cases before' with
    | nil => exact ⟨rfl, (List.cons.inj hsplit).1⟩
    | cons a rest =>
      obtain rfl := (List.cons.inj hsplit).1
      exact absurd (h' bad List.mem_cons_self) hbad
  | cons a rest ih =>
    cases before' with
    | nil =>
      obtain rfl := (List.cons.inj hsplit).1
      exact absurd (h a List.mem_cons_self) hbad'
    | cons a' rest' =>
      obtain ⟨rfl, hrest⟩ := List.cons.inj hsplit
      obtain ⟨rfl, rfl⟩ := ih hrest (List.forall_mem_cons.mp h).2 (List.forall_mem_cons.mp h').2
      exact ⟨rfl, rfl⟩

/-- Among lines that are not all in UTF-8 there is a first one that is not. -/
theorem exists_first_undecoded {ls : List (List UInt8)} (h : ∃ l ∈ ls, ¬ ∃ line, utf8 line = l) :
    ∃ (before : List String) (bad : List UInt8) (after : List (List UInt8)),
      ls = before.map utf8 ++ bad :: after ∧ ¬ ∃ line, utf8 line = bad := by
  obtain ⟨before, bad, after, rfl, hbefore, hbad⟩ := exists_first_not h
  obtain ⟨lines, rfl⟩ : before ∈ Set.range (List.map utf8) := by
    rw [Set.range_list_map]
    exact hbefore
  exact ⟨lines, bad, after, rfl, hbad⟩

theorem decode?_eq_none_iff {bytes : List UInt8} :
    decode? bytes = none ↔ ¬ ∃ text, utf8 text = bytes := by
  simp [Option.eq_none_iff_forall_ne_some, decode?_eq_some_iff]

/-- What is written for standard input with a line that is not in UTF-8. -/
theorem answerInput_of_undecoded (before : List String) {bad : List UInt8}
    (h : ¬ ∃ line, utf8 line = bad) (after : List (List UInt8)) :
    answerInput lib (before.map utf8 ++ bad :: after) =
      ⟨writtenFor lib before, some .unreadableInput⟩ := by
  have hbad : answerInput lib (bad :: after) = ⟨"", some .unreadableInput⟩ := by
    rw [answerInput, decode?_eq_none_iff.mpr h]
  rw [answerInput_append, hbad, answerLines_eq, String.append_empty]

/-- What is written for standard input of which all lines are in UTF-8. -/
theorem answerInput_map_utf8 (ls : List String) :
    answerInput lib (ls.map utf8) = ⟨writtenFor lib ls, none⟩ := by
  have hlines := answerInput_append lib ls []
  rw [List.append_nil] at hlines
  rw [hlines, answerLines_eq, answerInput, String.append_empty]

/-! ### The two ways to read -/

theorem map_toList_map_ofList (ls : List (List Char)) :
    (ls.map String.ofList).map String.toList = ls := by
  simp

theorem map_ofList_map_toList (ls : List String) :
    (ls.map String.toList).map String.ofList = ls := by
  simp

/-- The lines of a text are found alike among its characters and among its bytes. -/
theorem exists_isLines (text : String) : ∃ ls : List String,
    IsLines '\n' '\r' text.toList (ls.map String.toList) ∧ lines text = ls ∧
      byteLines (utf8 text) = ls.map utf8 := by
  have hlines : IsLines '\n' '\r' text.toList ((lines text).map String.toList) := by
    rw [lines, map_toList_map_ofList]
    exact isLines_linesBetween '\n' '\r' text.toList
  exact ⟨_, hlines, rfl, (isLines_utf8 hlines).linesBetween_eq (by decide)⟩

/-- Bytes that are not in UTF-8 have a first line that is not. -/
theorem exists_isLines_undecoded {bytes : List UInt8} (h : ¬ ∃ text, utf8 text = bytes) :
    ∃ (before : List String) (bad : List UInt8) (after : List (List UInt8)),
      IsLines 10 13 bytes (before.map utf8 ++ bad :: after) ∧ (¬ ∃ line, utf8 line = bad) ∧
        byteLines bytes = before.map utf8 ++ bad :: after := by
  have hlines := isLines_linesBetween 10 13 bytes
  have hsome : ∃ l ∈ byteLines bytes, ¬ ∃ line, utf8 line = l := by
    by_contra! hall
    exact h (exists_utf8_of_isLines hlines hall)
  obtain ⟨before, bad, after, hbytes, hbad⟩ := exists_first_undecoded hsome
  rw [← byteLines, hbytes] at hlines
  exact ⟨before, bad, after, hlines, hbad, hbytes⟩

theorem replyToArguments_eq {arguments : List String} {request : Request}
    (h : Request.ofArguments? arguments = some request)
    (readFile? : String → Option (List UInt8)) (input : List UInt8) :
    replyToArguments lib arguments readFile? input = reply lib readFile? input request := by
  rw [replyToArguments, h]

/-- **A file and standard input are answered alike, and each line by itself.** If the bytes are
those of a text in UTF-8, nothing goes wrong in either way, and both write the answers to the lines
of the text that are not blank, in their order. Otherwise both fail. Then nothing is written for the
file, and the answers to the lines before the first one that is not in UTF-8 are written for
standard input. -/
theorem replyToArguments_lines (readFile? otherFile? : String → Option (List UInt8))
    (bytes input : List UInt8) {fileArguments inputArguments : List String} {path : String}
    (hfile : Request.ofArguments? fileArguments = some (.file path))
    (hinput : Request.ofArguments? inputArguments = some .standardInput)
    (hread : readFile? path = some bytes) :
    (∀ text, utf8 text = bytes → ∃ ls : List String,
      IsLines '\n' '\r' text.toList (ls.map String.toList) ∧
        (replyToArguments lib fileArguments readFile? input).exitCode = 0 ∧
        (replyToArguments lib fileArguments readFile? input).output = writtenFor lib ls ∧
        (replyToArguments lib inputArguments otherFile? bytes).exitCode = 0 ∧
        (replyToArguments lib inputArguments otherFile? bytes).output = writtenFor lib ls) ∧
    ((¬ ∃ text, utf8 text = bytes) →
      ∃ (before : List String) (bad : List UInt8) (after : List (List UInt8)),
        IsLines 10 13 bytes (before.map utf8 ++ bad :: after) ∧ (¬ ∃ line, utf8 line = bad) ∧
          (replyToArguments lib fileArguments readFile? input).exitCode = 1 ∧
          (replyToArguments lib fileArguments readFile? input).output = "" ∧
          (replyToArguments lib inputArguments otherFile? bytes).exitCode = 1 ∧
          (replyToArguments lib inputArguments otherFile? bytes).output =
            writtenFor lib before) := by
  rw [replyToArguments_eq lib hfile, replyToArguments_eq lib hinput, reply, reply, hread,
    replyToFile, Option.bind_some]
  refine ⟨?_, fun h ↦ ?_⟩
  · rintro text rfl
    obtain ⟨ls, hls, hlines, hbytes⟩ := exists_isLines text
    rw [decode?_utf8, hbytes, answerInput_map_utf8]
    simp only [hlines, answerLines_eq]
    exact ⟨ls, hls, rfl, rfl, rfl, rfl⟩
  · obtain ⟨before, bad, after, hlines, hbad, hbytes⟩ := exists_isLines_undecoded h
    rw [decode?_eq_none_iff.mpr h, hbytes, answerInput_of_undecoded lib before hbad]
    exact ⟨before, bad, after, hlines, hbad, rfl, rfl, rfl, rfl⟩

/-- A blank line is not answered, a carriage return at the very end belongs to its line, and what
comes before a byte that no text has is answered on standard input only. -/
theorem replyToArguments_lines_samples :
    utf8 "1/4\r\n \n2\r" = [49, 47, 52, 13, 10, 32, 10, 50, 13] ∧
    ((replyToArguments .machine ["-f", "sums"]
        (fun _ ↦ some [49, 47, 52, 13, 10, 32, 10, 50, 13]) []).exitCode = 0 ∧
      (replyToArguments .machine ["-f", "sums"]
        (fun _ ↦ some [49, 47, 52, 13, 10, 32, 10, 50, 13]) []).output = "0.25\nError\n" ∧
      (replyToArguments .machine [] (fun _ ↦ none)
        [49, 47, 52, 13, 10, 32, 10, 50, 13]).exitCode = 0 ∧
      (replyToArguments .machine [] (fun _ ↦ none)
        [49, 47, 52, 13, 10, 32, 10, 50, 13]).output = "0.25\nError\n") ∧
    (¬ ∃ text, utf8 text = [49, 10, 255, 10, 50]) ∧
    ((replyToArguments .machine ["-f", "sums"]
        (fun _ ↦ some [49, 10, 255, 10, 50]) []).exitCode = 1 ∧
      (replyToArguments .machine ["-f", "sums"]
        (fun _ ↦ some [49, 10, 255, 10, 50]) []).output = "" ∧
      (replyToArguments .machine [] (fun _ ↦ none) [49, 10, 255, 10, 50]).exitCode = 1 ∧
      (replyToArguments .machine [] (fun _ ↦ none) [49, 10, 255, 10, 50]).output = "1\n") := by
  have hfile : Request.ofArguments? ["-f", "sums"] = some (.file "sums") := by decide +kernel
  have hinput : Request.ofArguments? [] = some .standardInput := rfl
  have htext : utf8 "1/4\r\n \n2\r" = [49, 47, 52, 13, 10, 32, 10, 50, 13] := by decide +kernel
  have hundecoded : ¬ ∃ text, utf8 text = [49, 10, 255, 10, 50] :=
    decode?_eq_none_iff.mp (by decide +kernel)
  refine ⟨htext, ?_, hundecoded, ?_⟩
  · obtain ⟨ls, hls, hreplies⟩ := (replyToArguments_lines .machine
      (fun _ ↦ some [49, 47, 52, 13, 10, 32, 10, 50, 13]) (fun _ ↦ none) _ [] hfile hinput rfl).1 _
      htext
    have hlines : ls = ["1/4", " ", "2\r"] := by
      rw [← map_ofList_map_toList ls, ← (linesBetween_eq_iff (by decide)).mpr hls]
      decide +kernel
    have hwritten : writtenFor .machine ls = "0.25\nError\n" := by
      rw [hlines]
      decide +kernel
    rwa [hwritten] at hreplies
  · obtain ⟨before, bad, after, hls, hbad, hreplies⟩ := (replyToArguments_lines .machine
      (fun _ ↦ some [49, 10, 255, 10, 50]) (fun _ ↦ none) _ [] hfile hinput rfl).2 hundecoded
    have hbytes : before.map utf8 ++ bad :: after = ["1"].map utf8 ++ [255] :: [utf8 "2"] := by
      rw [← (linesBetween_eq_iff (by decide)).mpr hls]
      decide +kernel
    have hsecond : ¬ ∃ line, utf8 line = [255] := decode?_eq_none_iff.mp (by decide +kernel)
    have hfront (ls : List String) : ∀ l ∈ ls.map utf8, ∃ line, utf8 line = l := by simp
    obtain ⟨hbefore, -⟩ := eq_of_first_not hbytes (hfront before) hbad (hfront ["1"]) hsecond
    have hwritten : writtenFor .machine before = "1\n" := by
      rw [List.map_injective_iff.mpr utf8_injective hbefore]
      decide +kernel
    rwa [hwritten] at hreplies

end DeskCalculator
