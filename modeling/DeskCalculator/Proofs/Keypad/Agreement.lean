import DeskCalculator.CommandLine.Reply
import DeskCalculator.Proofs.Grammar.Alphabet
import DeskCalculator.Proofs.Keypad.Recall
import DeskCalculator.Proofs.Text.Words
import Mathlib.Data.List.Forall2

/-!
# The keypad and the evaluation of expressions agree

The characters that can be typed are those that occur in sources with a value, so the keypad lacks
no expression and has no key that no expression needs. To type a text behind the key `C` and to
press `=` shows the answer to the text, whatever came before. On the command line, a text without
spaces is answered alike whether it is given as an expression or as labels.

## Main definitions

* `IsTypeable`: a character that is the label of the key that types it.
* `labelRow`: the labels that type a text and calculate it.

## Main results

* `isTypeable_iff_isLexical`: the characters that can be typed are those of spaces and tokens.
* `Session.pressLabels_type`: what is shown when a text has been typed and calculated.
* `keypad_agreement`: the keypad and the evaluation of expressions agree.
-/

namespace DeskCalculator

variable {lib : Elementary} {c : Char}

/-! ### The characters that can be typed -/

/-- The character alone is the label of the key that types it. -/
def IsTypeable (c : Char) : Prop := Key.ofLabel (String.singleton c) = .ok (.input c)

theorem isInput_iff_isLexical : Key.isInput c = true ↔ IsLexical c := by
  simp only [Key.isInput, IsLexical, isSome_ofMark?_iff, Bool.or_eq_true, List.contains_iff_mem,
    List.mem_cons, List.not_mem_nil, or_false]
  tauto

/-- No function has a single character for its label. -/
theorem FunctionKey.ofLabel?_singleton (c : Char) : ofLabel? (String.singleton c) = none := by
  cases hlabel : ofLabel? (String.singleton c) with
  | none => rfl
  | some f =>
    have hlength := congrArg String.length (label_of_ofLabel? hlabel)
    rw [String.length_singleton] at hlength
    cases f <;> cases hlength

/-- A character can be typed if it is one of the input characters. -/
theorem isTypeable_iff_isInput : IsTypeable c ↔ Key.isInput c = true := by
  have heq (d : Char) : String.singleton c = String.singleton d ↔ c = d := by
    simp [← String.toList_inj]
  have hne : String.singleton c ≠ "CE" := by simp [← String.toList_inj]
  have hequals : String.singleton c = "=" ↔ c = '=' := heq '='
  have hclear : String.singleton c = "C" ↔ c = 'C' := heq 'C'
  rw [IsTypeable, Key.ofLabel_eq_ok_iff, Key.ofLabel?, if_neg hne, FunctionKey.ofLabel?_singleton,
    Key.ofCharacter?, String.toList_singleton]
  simp only [hequals, hclear, Option.map_none, Option.none_or]
  by_cases hc : c = '='
  · subst hc
    decide
  · by_cases hc' : c = 'C'
    · subst hc'
      decide
    · rw [if_neg hc, if_neg hc']
      simp

/-- The characters that can be typed are those of spaces and tokens. -/
theorem isTypeable_iff_isLexical : IsTypeable c ↔ IsLexical c :=
  isTypeable_iff_isInput.trans isInput_iff_isLexical

/-! ### Typing a text -/

/-- The text of character keys is what they type. -/
theorem typedAtEnd_map_input (cs : List Char) :
    typedAtEnd (cs.map .input) = String.ofList cs := by
  induction cs using List.reverseRecOn with
  | nil => rfl
  | append_singleton cs c ih =>
    rw [List.map_append, List.map_singleton, typedAtEnd_concat, ih, String.ofList_append,
      ← String.singleton_eq_ofList, ← String.push_eq_append]
    rfl

namespace Session

variable (lib)

/-- The keys of known labels are pressed one after the other. -/
theorem pressLabels_of_forall₂ {labels : List String} {keys : List Key}
    (h : List.Forall₂ (fun label key ↦ Key.ofLabel label = .ok key) labels keys) (s : Session) :
    s.pressLabels lib labels = .ok (s.pressAll lib keys) := by
  induction h generalizing s with
  | nil => rfl
  | cons hkey _ ih =>
    rw [pressLabels, List.foldlM_cons, pressLabel, hkey]
    exact ih _

/-- Behind `=`, a text that has been typed on a new session is answered. -/
theorem pressAll_map_input_equals (text : String) :
    start.pressAll lib (text.toList.map .input ++ [.equals]) =
      ⟨text, shownAnswer lib text, true⟩ := by
  rw [pressAll_concat, press, pending_pressAll, typedAtEnd_map_input, String.ofList_toList]
  rfl

/-- The labels of a text that can be typed, and of `=` behind it, are known. -/
theorem forall₂_labels {text : String} (h : ∀ c ∈ text.toList, IsTypeable c) :
    List.Forall₂ (fun label key ↦ Key.ofLabel label = .ok key)
      (text.toList.map String.singleton ++ ["="]) (text.toList.map .input ++ [.equals]) := by
  refine List.rel_append ?_ (.cons rfl .nil)
  rw [List.forall₂_map_left_iff, List.forall₂_map_right_iff, List.forall₂_same]
  exact h

/-- To clear, to type a text and to calculate shows the answer to the text. -/
theorem pressLabels_type {text : String} (h : ∀ c ∈ text.toList, IsTypeable c) (s : Session) :
    s.pressLabels lib ("C" :: (text.toList.map String.singleton ++ ["="])) =
      .ok ⟨text, shownAnswer lib text, true⟩ := by
  have hclear : Key.ofLabel "C" = .ok .clearEntry := rfl
  rw [pressLabels_of_forall₂ lib (.cons hclear (forall₂_labels h)), pressAll_cons]
  exact congrArg Except.ok (pressAll_map_input_equals lib text)

end Session

/-- What is shown for an expression is its answer, or the word for a failure. -/
theorem shownAnswer_eq (lib : Elementary) (source : String) :
    shownAnswer lib source = match answer lib source with
      | .ok text => text
      | .error _ => errorText := by
  rw [shownAnswer, answer]
  cases calculate lib source <;> rfl

/-! ### Labels between blanks -/

/-- The labels of characters with blanks behind each of them, and the label `=`. -/
def labelRow (cs : List Char) (gaps : List (List Char)) : String :=
  String.ofList ((List.zipWith List.cons cs gaps).flatten ++ ['='])

/-- A character that can be typed is blank only if it is a space. -/
theorem isBlank_eq_false (h : IsTypeable c ∧ c ≠ ' ') : isBlank c = false := by
  obtain ⟨htypeable, hspace⟩ := h
  rw [isTypeable_iff_isInput, Key.isInput, Bool.or_eq_true] at htypeable
  rcases htypeable with hdigit | hmark
  · exact isBlank_eq_false_of_isDigit hdigit
  · have hmarks : ∀ c ∈ ['.', '+', '-', '*', '/', '^', '(', ')'], isBlank c = false := by
      simp [isBlank, blankRanges]
    exact hmarks c (by simpa [hspace] using hmark)

/-- A character between blanks is a word. -/
theorem words_cons {gap : List Char} (hc : isBlank c = false) (hne : gap ≠ [])
    (h : ∀ c ∈ gap, isBlank c = true) (rest : List Char) :
    words (c :: (gap ++ rest)) = [c] :: words rest := by
  have hend : ∀ d ∈ (gap ++ rest).head?, isBlank d = true := by
    obtain ⟨d, ds, rfl⟩ := List.exists_cons_of_ne_nil hne
    simpa using h d List.mem_cons_self
  have hword : ∀ d ∈ [c], isBlank d = false := List.forall_mem_singleton.mpr hc
  rw [← List.singleton_append, words_append_word (List.cons_ne_nil _ _) hword hend,
    words_append_of_blank h]

/-- The words of a row of labels are the labels. -/
theorem words_labelRow {cs : List Char} {gaps : List (List Char)}
    (hlength : gaps.length = cs.length) (hcs : ∀ c ∈ cs, isBlank c = false)
    (hgaps : ∀ gap ∈ gaps, gap ≠ [] ∧ ∀ c ∈ gap, isBlank c = true) :
    words (labelRow cs gaps).toList = cs.map ([·]) ++ [['=']] := by
  rw [labelRow, String.toList_ofList]
  induction cs generalizing gaps with
  | nil => cbv
  | cons c cs ih =>
    cases gaps with
    | nil => cases hlength
    | cons gap gaps =>
      obtain ⟨hc, hcs⟩ := List.forall_mem_cons.1 hcs
      obtain ⟨⟨hne, hblank⟩, hgaps⟩ := List.forall_mem_cons.1 hgaps
      rw [List.zipWith_cons_cons, List.flatten_cons, List.cons_append, List.cons_append,
        List.append_assoc, words_cons hc hne hblank, ih (Nat.succ.inj hlength) hcs hgaps]
      rfl

variable (lib)

section Row

variable {text : String} {gaps : List (List Char)} (hlength : gaps.length = text.toList.length)
  (htext : ∀ c ∈ text.toList, IsTypeable c ∧ c ≠ ' ')
  (hgaps : ∀ gap ∈ gaps, gap ≠ [] ∧ ∀ c ∈ gap, isBlank c = true)

include hlength htext hgaps

/-- The labels of a row are those of its characters, and `=`. -/
theorem ofList_words_labelRow : (words (labelRow text.toList gaps).toList).map String.ofList =
    text.toList.map String.singleton ++ ["="] := by
  rw [words_labelRow hlength (fun c hc ↦ isBlank_eq_false (htext c hc)) hgaps, List.map_append,
    List.map_map]
  refine congrArg₂ (· ++ ·) (List.map_congr_left fun c _ ↦ ?_) rfl
  exact String.singleton_eq_ofList.symm

/-- Labels that type a text without spaces and calculate it are answered by its answer. -/
theorem replyToKeys_labelRow :
    replyToKeys lib (labelRow text.toList gaps) = ⟨unlines [shownAnswer lib text], none⟩ := by
  have hkeys := Session.forall₂_labels fun c hc ↦ (htext c hc).1
  rw [replyToKeys, ofList_words_labelRow hlength htext hgaps,
    Session.pressLabels_of_forall₂ lib hkeys, Session.pressAll_map_input_equals]

end Row

/-! ### Replies to expressions -/

/-- A line that is not empty and in which nothing is blank is answered. -/
theorem answerLine_eq {line : String} (hne : line ≠ "")
    (h : ∀ c ∈ line.toList, isBlank c = false) : answerLine lib line = [shownAnswer lib line] := by
  have hsome : line.toList ≠ [] := mt String.toList_eq_nil_iff.1 hne
  obtain ⟨c, hc⟩ := List.exists_mem_of_ne_nil _ hsome
  refine if_neg fun hall ↦ ?_
  exact Bool.false_ne_true ((h c hc).symm.trans (List.all_eq_true.1 hall c hc))

/-- An expression of characters that can be typed, without spaces, is answered by its answer. -/
theorem reply_expression {text : String} (hne : text ≠ "")
    (htext : ∀ c ∈ text.toList, IsTypeable c ∧ c ≠ ' ')
    (readFile? : String → Option (List UInt8)) (input : List UInt8) :
    reply lib readFile? input (.expression text) = ⟨unlines [shownAnswer lib text], none⟩ := by
  have hline := answerLine_eq lib hne fun c hc ↦ isBlank_eq_false (htext c hc)
  rw [reply, answerLines, List.flatMap_singleton, hline]

/-- **Agreement of the keypad and the evaluation of expressions.** A character can be typed exactly
if it occurs in a source that has a value. From every session, to clear, to type a text and to
calculate shows the answer to the text, with the text as the entry of a fresh session. On the
command line, a text without spaces gets the same reply as an expression and as labels between
blanks. -/
theorem keypad_agreement (lib : Elementary) :
    (∀ c, IsTypeable c ↔ ∃ source v, evaluate lib source = .ok v ∧ c ∈ source.toList) ∧
    (∀ (s : Session) (text : String), (∀ c ∈ text.toList, IsTypeable c) →
      s.pressLabels lib ("C" :: (text.toList.map String.singleton ++ ["="])) =
        .ok { entry := text
              display := match answer lib text with
                | .ok answered => answered
                | .error _ => errorText
              fresh := true }) ∧
    (∀ (text : String) (gaps : List (List Char)), text ≠ "" →
      (∀ c ∈ text.toList, IsTypeable c ∧ c ≠ ' ') → gaps.length = text.toList.length →
      (∀ gap ∈ gaps, gap ≠ [] ∧ ∀ c ∈ gap, isBlank c = true) →
      ∀ (readFile? : String → Option (List UInt8)) (input : List UInt8),
        replyToArguments lib ["--keys", "--", labelRow text.toList gaps] readFile? input =
          replyToArguments lib ["--", text] readFile? input ∧
        replyToArguments lib ["--", text] readFile? input =
          ⟨unlines [shownAnswer lib text], none⟩) := by
  refine ⟨fun c ↦ ?_, fun s text htext ↦ ?_, ?_⟩
  · exact isTypeable_iff_isLexical.trans (isLexical_iff_exists_evaluate lib)
  · rw [Session.pressLabels_type lib htext, shownAnswer_eq]
  · intro text gaps hne htext hlength hgaps readFile? input
    have hkeys : replyToArguments lib ["--keys", "--", labelRow text.toList gaps] readFile? input =
        replyToKeys lib (labelRow text.toList gaps) := rfl
    have hexpression : replyToArguments lib ["--", text] readFile? input =
        reply lib readFile? input (.expression text) := rfl
    rw [hkeys, hexpression, replyToKeys_labelRow lib hlength htext hgaps,
      reply_expression lib hne htext]
    exact ⟨rfl, rfl⟩

/-- A root that failed is cleared, and `1/4` is answered alike in the three ways. -/
theorem keypad_agreement_quarter :
    (Session.mk "-1" "Error" true).pressLabels .machine ["C", "1", "/", "4", "="] =
        .ok ⟨"1/4", "0.25", true⟩ ∧
      (replyToArguments .machine ["--keys", "--", "1 /\t 4\n="] (fun _ ↦ none) []).output =
        "0.25\n" ∧
      (replyToArguments .machine ["--", "1/4"] (fun _ ↦ none) []).output = "0.25\n" := by
  have htyped : ∀ c ∈ "1/4".toList, IsTypeable c ∧ c ≠ ' ' := by
    have hinput : ∀ c ∈ "1/4".toList, Key.isInput c = true ∧ c ≠ ' ' := by simp [Key.isInput]
    exact fun c hc ↦ (hinput c hc).imp_left isTypeable_iff_isInput.2
  have hanswer : shownAnswer .machine "1/4" = "0.25" := by decide +kernel
  obtain ⟨-, htype, hreply⟩ := keypad_agreement .machine
  have hlabels := htype ⟨"-1", "Error", true⟩ "1/4" fun c hc ↦ (htyped c hc).1
  have hgaps : ∀ gap ∈ [[' '], ['\t', ' '], ['\n']], gap ≠ [] ∧ ∀ c ∈ gap, isBlank c = true := by
    simp [isBlank, blankRanges]
  obtain ⟨hkeys, hexpression⟩ := hreply "1/4" _ (by decide) htyped rfl hgaps (fun _ ↦ none) []
  rw [← shownAnswer_eq, hanswer] at hlabels
  rw [hanswer] at hexpression
  exact ⟨hlabels, congrArg Reply.output (hkeys.trans hexpression),
    congrArg Reply.output hexpression⟩

end DeskCalculator
