import DeskCalculator.Proofs.CommandLine.Answers

/-!
# Labels that no key has

A label is looked up before anything is pressed. So a label that no key has is refused with a
failure that names it, and the session is as it was; if it is fresh, it stays fresh. When failures
are ignored, such labels might as well be left out. The command line does not ignore them: it stops
at the first one, and then no display is written, whatever the labels behind it are.

## Main definitions

* `Key.HasLabel`: the labels of every key.
* `Session.pressInPlace`: a label is pressed on a session that is changed in place.
* `Session.behindLabels`: the session behind labels, of which some are refused.

## Main results

* `Key.ofLabel?_eq_some_iff`: the key that is found for a label.
* `Session.pressInPlace_eq_error_iff`: the labels that are refused.
* `Session.behindLabels_filter`: a label that is refused might as well be left out.
* `unknownLabels_refused`: what becomes of labels that no key has.
-/

namespace DeskCalculator

variable {label : String} {labels before : List String} {key : Key}

/-! ### Known labels -/

/-- The labels of every key. -/
inductive Key.HasLabel : Key → String → Prop
  /-- The key `=`. -/
  | equals : HasLabel .equals "="
  /-- The key `C`. -/
  | clearEntry : HasLabel .clearEntry "C"
  /-- The key `CE`. -/
  | clearAll : HasLabel .clearAll "CE"
  /-- The key of the square root. -/
  | squareRoot : HasLabel (.function .squareRoot) "sqrt"
  /-- The key of the square. -/
  | square : HasLabel (.function .square) "x^2"
  /-- The key of the reciprocal. -/
  | reciprocal : HasLabel (.function .reciprocal) "1/x"
  /-- The key of the sine. -/
  | sine : HasLabel (.function .sine) "sin"
  /-- The key of the cosine. -/
  | cosine : HasLabel (.function .cosine) "cos"
  /-- The key of the tangent. -/
  | tangent : HasLabel (.function .tangent) "tan"
  /-- A character of expressions is the label of the key that types it. -/
  | input {c : Char} (h : IsLexical c) : HasLabel (.input c) (String.singleton c)

/-- Some key has the label. -/
def IsKnownLabel (label : String) : Prop := ∃ key : Key, key.HasLabel label

theorem FunctionKey.hasLabel_label (f : FunctionKey) : (Key.function f).HasLabel f.label := by
  cases f <;> constructor

namespace Key

/-- The character keys are found by the characters of expressions. -/
theorem ofCharacter?_eq_some_iff : ofCharacter? label = some key ↔
    ∃ c, IsLexical c ∧ label = String.singleton c ∧ key = input c := by
  rw [ofCharacter?]
  refine ⟨fun h ↦ ?_, ?_⟩
  · split at h
    · next c hc =>
      have hlabel : label = String.singleton c := by
        rw [← String.toList_inj, hc, String.toList_singleton]
      split_ifs at h with hinput
      exact ⟨c, isInput_iff_isLexical.mp hinput, hlabel, (Option.some.inj h).symm⟩
    · cases h
  · rintro ⟨c, hc, rfl, rfl⟩
    rw [String.toList_singleton]
    exact if_pos (isInput_iff_isLexical.mpr hc)

/-- The key that is found for a label is the one that has it. -/
theorem ofLabel?_eq_some_iff : ofLabel? label = some key ↔ key.HasLabel label := by
  refine ⟨fun h ↦ ?_, fun h ↦ ?_⟩
  · rw [ofLabel?] at h
    split_ifs at h with hequals hclear hall
    · exact Option.some.inj h ▸ hequals ▸ .equals
    · exact Option.some.inj h ▸ hclear ▸ .clearEntry
    · exact Option.some.inj h ▸ hall ▸ .clearAll
    · obtain hfunction | ⟨-, hcharacter⟩ := Option.or_eq_some_iff.mp h
      · obtain ⟨f, hf, rfl⟩ := Option.map_eq_some_iff.mp hfunction
        exact FunctionKey.label_of_ofLabel? hf ▸ f.hasLabel_label
      · obtain ⟨c, hc, rfl, rfl⟩ := ofCharacter?_eq_some_iff.mp hcharacter
        exact .input hc
  · cases h with
    | input hc => exact ofLabel_eq_ok_iff.mp (isTypeable_iff_isLexical.mpr hc)
    | equals | clearEntry | clearAll => rfl
    | squareRoot | square | reciprocal | sine | cosine | tangent => decide +kernel

end Key

theorem isSome_ofLabel?_iff : (Key.ofLabel? label).isSome = true ↔ IsKnownLabel label := by
  rw [Option.isSome_iff_exists]
  exact exists_congr fun _ ↦ Key.ofLabel?_eq_some_iff

instance : DecidablePred IsKnownLabel := fun _ ↦ decidable_of_iff _ isSome_ofLabel?_iff

theorem Key.HasLabel.ofLabel_eq (h : key.HasLabel label) : Key.ofLabel label = .ok key :=
  Key.ofLabel_eq_ok_iff.mpr (Key.ofLabel?_eq_some_iff.mpr h)

theorem ofLabel_of_not_isKnownLabel (h : ¬ IsKnownLabel label) :
    Key.ofLabel label = .error (.unknownKey label) := by
  rw [← isSome_ofLabel?_iff, Option.not_isSome_iff_eq_none] at h
  rw [Key.ofLabel, h]

/-! ### Labels pressed in place -/

namespace Session

variable (lib : Elementary)

/-- The key with a label is looked up and pressed, and the display is answered. The session is
changed in place. -/
def pressInPlace (label : String) : EStateM Failure Session String := do
  let key ← MonadExcept.ofExcept (Key.ofLabel label)
  modify (·.press lib key)
  return (← get).display

/-- The session behind a label, whether it is refused or not. -/
def behindLabel (s : Session) (label : String) : Session :=
  match pressInPlace lib label s with
  | .ok _ s' => s'
  | .error _ s' => s'

/-- The session behind labels that are pressed one after the other, of which some are refused. -/
def behindLabels (s : Session) (labels : List String) : Session := labels.foldl (behindLabel lib) s

variable {lib}

/-- A label that is pressed in place has the same outcome, and a failure leaves the session as it
was. -/
theorem pressInPlace_eq (s : Session) (label : String) : pressInPlace lib label s =
    match s.pressLabel lib label with
    | .ok s' => .ok s'.display s'
    | .error e => .error e s := by
  rw [pressInPlace, pressLabel]
  cases Key.ofLabel label <;> rfl

theorem pressInPlace_of_hasLabel (h : key.HasLabel label) (s : Session) :
    pressInPlace lib label s = .ok (s.press lib key).display (s.press lib key) := by
  rw [pressInPlace_eq, pressLabel, h.ofLabel_eq]
  rfl

theorem pressInPlace_of_not_isKnownLabel (h : ¬ IsKnownLabel label) (s : Session) :
    pressInPlace lib label s = .error (.unknownKey label) s := by
  rw [pressInPlace_eq, pressLabel, ofLabel_of_not_isKnownLabel h]
  rfl

/-- The labels that are refused are those that no key has, and the session is as it was. -/
theorem pressInPlace_eq_error_iff {s s' : Session} {e : Failure} :
    pressInPlace lib label s = .error e s' ↔
      ¬ IsKnownLabel label ∧ e = .unknownKey label ∧ s' = s := by
  by_cases h : IsKnownLabel label
  · obtain ⟨key, hkey⟩ := h
    rw [pressInPlace_of_hasLabel hkey]
    exact ⟨nofun, fun hnot ↦ absurd ⟨key, hkey⟩ hnot.1⟩
  · rw [pressInPlace_of_not_isKnownLabel h, EStateM.Result.error.injEq]
    exact ⟨fun ⟨he, hs⟩ ↦ ⟨h, he.symm, hs.symm⟩, fun ⟨_, he, hs⟩ ↦ ⟨he.symm, hs.symm⟩⟩

/-- Labels that are refused might as well be left out. -/
theorem behindLabels_filter (s : Session) (labels : List String) :
    s.behindLabels lib labels = s.behindLabels lib (labels.filter (IsKnownLabel ·)) := by
  rw [behindLabels, behindLabels, List.foldl_filter]
  congr 1
  funext s label
  by_cases h : IsKnownLabel label
  · rw [if_pos (decide_eq_true h)]
  · rw [if_neg (by simpa using h), behindLabel, pressInPlace_of_not_isKnownLabel h]

/-- Labels that are all known are pressed one after the other. -/
theorem pressLabels_of_isKnownLabel (h : ∀ label ∈ labels, IsKnownLabel label) (s : Session) :
    s.pressLabels lib labels = .ok (s.behindLabels lib labels) := by
  induction labels generalizing s with
  | nil => rfl
  | cons label labels ih =>
    obtain ⟨⟨key, hkey⟩, hlabels⟩ := List.forall_mem_cons.mp h
    have hbehind : s.behindLabel lib label = s.press lib key := by
      rw [behindLabel, pressInPlace_of_hasLabel hkey]
    rw [behindLabels, List.foldl_cons, hbehind, ← behindLabels, ← ih hlabels]
    rw [pressLabels, List.foldlM_cons, pressLabel, hkey.ofLabel_eq]
    rfl

/-- The first label that no key has is the one that is named. -/
theorem pressLabels_of_not_isKnownLabel (hbefore : ∀ label ∈ before, IsKnownLabel label)
    (h : ¬ IsKnownLabel label) (after : List String) (s : Session) :
    s.pressLabels lib (before ++ label :: after) = .error (.unknownKey label) := by
  have hlabel : (s.behindLabels lib before).pressLabel lib label = .error (.unknownKey label) := by
    rw [pressLabel, ofLabel_of_not_isKnownLabel h]
    rfl
  calc s.pressLabels lib (before ++ label :: after)
      = (s.pressLabels lib before >>= (·.pressLabels lib (label :: after))) := List.foldlM_append
    _ = (s.behindLabels lib before).pressLabels lib (label :: after) := by
        rw [pressLabels_of_isKnownLabel hbefore]
        rfl
    _ = .error (.unknownKey label) := by
        rw [pressLabels, List.foldlM_cons, hlabel]
        rfl

end Session

/-! ### Labels on the command line -/

variable (lib : Elementary)

/-- The words of a text are pressed as labels. -/
theorem exists_isWords_replyToKeys (text : String) : ∃ labels : List String,
    IsWords text.toList (labels.map String.toList) ∧
      replyToKeys lib text = match Session.start.pressLabels lib labels with
        | .ok session => ⟨unlines [session.display], none⟩
        | .error failure => ⟨"", some (.unknownKey failure)⟩ := by
  refine ⟨(words text.toList).map String.ofList, ?_, rfl⟩
  rw [map_toList_map_ofList]
  exact isWords_words text.toList

/-- **Labels that no key has are refused.** To press a label fails exactly if no key has it, with a
failure that names it and with the session as it was, also if it is fresh. So behind any labels a
session is as it is behind the known ones among them. On the command line, words that are all known
labels are answered by a line with the display behind them, and nothing goes wrong. Otherwise
nothing is answered, the first word that is no label is named, and the exit code is 2. -/
theorem unknownLabels_refused :
    (∀ (s : Session) (label : String),
      (∀ key : Key, key.HasLabel label → Session.pressInPlace lib label s =
        .ok (s.press lib key).display (s.press lib key)) ∧
      ∀ e s', Session.pressInPlace lib label s = .error e s' ↔
        ¬ IsKnownLabel label ∧ e = .unknownKey label ∧ s' = s) ∧
    (∀ (s : Session) (labels : List String),
      s.behindLabels lib labels = s.behindLabels lib (labels.filter (IsKnownLabel ·)) ∧
      s.pressLabels lib (labels.filter (IsKnownLabel ·)) = .ok (s.behindLabels lib labels)) ∧
    (∀ text, Request.ofArguments? ["--keys", "--", text] = some (.keys text)) ∧
    ∀ (arguments : List String) (text : String) (readFile? : String → Option (List UInt8))
      (input : List UInt8), Request.ofArguments? arguments = some (.keys text) →
      ∃ labels : List String, IsWords text.toList (labels.map String.toList) ∧
        ((∀ label ∈ labels, IsKnownLabel label) →
          (replyToArguments lib arguments readFile? input).output =
            (Session.start.behindLabels lib labels).display ++ "\n" ∧
          (replyToArguments lib arguments readFile? input).exitCode = 0) ∧
        ((∃ label ∈ labels, ¬ IsKnownLabel label) →
          ∃ (before : List String) (label : String) (after : List String),
            labels = before ++ label :: after ∧ (∀ l ∈ before, IsKnownLabel l) ∧
            ¬ IsKnownLabel label ∧
            (replyToArguments lib arguments readFile? input).output = "" ∧
            (replyToArguments lib arguments readFile? input).exitCode = 2 ∧
            (replyToArguments lib arguments readFile? input).fault?.map Fault.message =
              some s!"Unknown key '{label}'.") := by
  refine ⟨fun s label ↦ ⟨fun key hkey ↦ Session.pressInPlace_of_hasLabel hkey s, fun e s' ↦
    Session.pressInPlace_eq_error_iff⟩, fun s labels ↦ ⟨s.behindLabels_filter labels, ?_⟩,
    fun _ ↦ rfl, fun arguments text readFile? input harguments ↦ ?_⟩
  · have hknown : ∀ label ∈ labels.filter (IsKnownLabel ·), IsKnownLabel label := fun label h ↦ by
      simpa using List.of_mem_filter h
    rw [s.behindLabels_filter labels]
    exact Session.pressLabels_of_isKnownLabel hknown s
  · obtain ⟨labels, hwords, hreply⟩ := exists_isWords_replyToKeys lib text
    rw [replyToArguments_eq lib harguments, reply, hreply]
    refine ⟨labels, hwords, fun hknown ↦ ?_, fun hunknown ↦ ?_⟩
    · rw [Session.pressLabels_of_isKnownLabel hknown]
      exact ⟨unlines_singleton _, rfl⟩
    · obtain ⟨before, label, after, rfl, hbefore, hlabel⟩ := exists_first_not hunknown
      rw [Session.pressLabels_of_not_isKnownLabel hbefore hlabel]
      exact ⟨before, label, after, rfl, hbefore, hlabel, rfl, rfl, rfl⟩

/-- A fresh session is still fresh behind `log`, which can be left out from other labels, and which
is where the command line stops. Without it there is a line with the display. -/
theorem unknownLabels_refused_log :
    ¬ IsKnownLabel "log" ∧
      Session.pressInPlace .machine "log" ⟨"2", "4", true⟩ =
        .error (.unknownKey "log") ⟨"2", "4", true⟩ ∧
      Session.behindLabels .machine ⟨"2", "4", true⟩ ["log", "9", "X", "sqrt"] =
        ⟨"9", "3", true⟩ ∧
      ((replyToArguments .machine ["--keys", "--", " 8 +\t1  ="] (fun _ ↦ none) []).output =
          "9\n" ∧
        (replyToArguments .machine ["--keys", "--", " 8 +\t1  ="] (fun _ ↦ none) []).exitCode =
          0) ∧
      (replyToArguments .machine ["--keys", "--", " 8 log\t+ ++"] (fun _ ↦ none) []).output = "" ∧
      (replyToArguments .machine ["--keys", "--", " 8 log\t+ ++"] (fun _ ↦ none) []).exitCode =
        2 ∧
      (replyToArguments .machine ["--keys", "--", " 8 log\t+ ++"] (fun _ ↦ none) []).fault?.map
        Fault.message = some "Unknown key 'log'." := by
  have hlog : ¬ IsKnownLabel "log" := by decide +kernel
  obtain ⟨hpress, hlabels, hkeys, hrun⟩ := unknownLabels_refused .machine
  refine ⟨hlog, ((hpress _ _).2 _ _).mpr ⟨hlog, rfl, rfl⟩, ?_, ?_, ?_⟩
  · rw [(hlabels _ _).1]
    decide +kernel
  · obtain ⟨labels, hwords, hknown, -⟩ := hrun _ _ (fun _ ↦ none) [] (hkeys " 8 +\t1  =")
    have hsum : labels = ["8", "+", "1", "="] := by
      rw [← map_ofList_map_toList labels, ← words_eq_iff.mpr hwords]
      decide +kernel
    have hreply := hknown (by rw [hsum]; decide +kernel)
    have hdisplay : (Session.start.behindLabels .machine labels).display = "9" := by
      rw [hsum]
      decide +kernel
    rwa [hdisplay] at hreply
  · obtain ⟨labels, hwords, -, hunknown⟩ := hrun _ _ (fun _ ↦ none) [] (hkeys " 8 log\t+ ++")
    have hsplit : labels = ["8"] ++ "log" :: ["+", "++"] := by
      rw [← map_ofList_map_toList labels, ← words_eq_iff.mpr hwords]
      decide +kernel
    obtain ⟨before, label, after, rfl, hbefore, hlabel, houtput, hcode, hmessage⟩ :=
      hunknown ⟨"log", by simp [hsplit], hlog⟩
    obtain ⟨-, rfl⟩ := eq_of_first_not hsplit hbefore hlabel (by decide +kernel) hlog
    exact ⟨houtput, hcode, hmessage⟩

end DeskCalculator
