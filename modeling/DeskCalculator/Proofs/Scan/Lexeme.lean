import DeskCalculator.Proofs.Number.Bits
import DeskCalculator.Proofs.Scan.Longest

/-!
# Lexemes

A *lexeme* is a text that a token is written as: one of seven marks, or a numeral. The patterns of
numerals are `digit+ ("." digit+)?` and `"." digit+`. They are given here without a reader, and a
numeral is given the double that it is as a literal. Reading a token takes the longest lexeme that
begins a text, and fails exactly when none does. In particular every numeral is a literal, and its
double is a number without a sign.

## Main definitions

* `IsNumeral`, `IsMark`, `IsLexeme`: the texts of numerals, of marks, and of all tokens.
* `Token.HasLexeme`: the token that a lexeme stands for.

## Main results

* `Numeral.exists_read?_text`: a numeral that begins a text is read, or a longer one.
* `Token.hasLexeme_of_read?`, `Token.length_le_of_read?`, `Token.not_isLexeme_of_read?`: what is
  read is the longest lexeme.
* `IsNumeral.exists_literal`: every numeral is a literal without a sign, and a number.
-/

namespace DeskCalculator

/-! ### The patterns -/

/-- One digit or more. -/
def IsDigits (cs : List Char) : Prop := cs ≠ [] ∧ ∀ c ∈ cs, c.isDigit = true

/-- The texts of numerals. -/
inductive IsNumeral : List Char → Prop
  /-- Digits alone. -/
  | whole {ds} (h : IsDigits ds) : IsNumeral ds
  /-- Digits on both sides of a point. -/
  | pointed {ds es} (h : IsDigits ds) (h' : IsDigits es) : IsNumeral (ds ++ '.' :: es)
  /-- Digits behind a point alone. -/
  | fraction {es} (h : IsDigits es) : IsNumeral ('.' :: es)

/-- The tokens that are written as one mark. -/
inductive IsMark : Token → Char → Prop
  /-- The mark `+`. -/
  | plus : IsMark .plus '+'
  /-- The mark `-`. -/
  | minus : IsMark .minus '-'
  /-- The mark `*`. -/
  | star : IsMark .star '*'
  /-- The mark `/`. -/
  | slash : IsMark .slash '/'
  /-- The mark `^`. -/
  | caret : IsMark .caret '^'
  /-- The mark `(`. -/
  | leftParen : IsMark .leftParen '('
  /-- The mark `)`. -/
  | rightParen : IsMark .rightParen ')'

/-- The texts that tokens are written as. -/
inductive IsLexeme : List Char → Prop
  /-- A numeral. -/
  | number {cs} (h : IsNumeral cs) : IsLexeme cs
  /-- A mark. -/
  | mark {t c} (h : IsMark t c) : IsLexeme [c]

/-- The token that a lexeme stands for. The value of a numeral is the double that it is as a
literal. -/
inductive Token.HasLexeme : Token → List Char → Prop
  /-- A numeral. -/
  | number {cs v} (h : IsNumeral cs) (hv : (Literal.read? cs).map Literal.value = some v) :
      HasLexeme (.number v) cs
  /-- A mark. -/
  | mark {t c} (h : IsMark t c) : HasLexeme t [c]

theorem Token.HasLexeme.isLexeme {t : Token} {cs : List Char} (h : t.HasLexeme cs) :
    IsLexeme cs := by
  cases h with
  | number h => exact .number h
  | mark h => exact .mark h

theorem isMark_iff {t : Token} {c : Char} : IsMark t c ↔ Token.ofMark? c = some t := by
  constructor
  · rintro (_ | _) <;> rfl
  · intro h
    unfold Token.ofMark? at h
    split at h <;> cases h <;> constructor

/-- The texts of numerals are the written forms of well-formed numerals. -/
theorem isNumeral_iff {cs : List Char} :
    IsNumeral cs ↔ ∃ n : Numeral, n.WellFormed ∧ n.text = cs := by
  constructor
  · rintro (h | ⟨h, h'⟩ | h)
    · exact ⟨⟨cs, none⟩, .of_whole h.2 h.1, List.append_nil cs⟩
    · exact ⟨⟨_, some _⟩, .of_fraction h.2 h'.2 h'.1, rfl⟩
    · exact ⟨⟨[], some _⟩, .of_fraction (List.forall_mem_nil _) h.2 h.1, rfl⟩
  · rintro ⟨⟨whole, fraction?⟩, h, rfl⟩
    cases fraction? with
    | none =>
      have hdigits : IsDigits whole := ⟨h.whole_ne_nil rfl, h.isDigit_whole⟩
      rw [Numeral.text, List.append_nil]
      exact .whole hdigits
    | some es =>
      have hdigits : IsDigits es :=
        ⟨fun hnil ↦ h.fraction?_ne (congrArg some hnil), h.isDigit_fraction⟩
      by_cases hnil : whole = []
      · subst hnil
        exact .fraction hdigits
      · exact .pointed ⟨hnil, h.isDigit_whole⟩ hdigits

/-! ### The longest lexeme is read -/

/-- Digits that begin a text are among those that can be taken. -/
theorem length_le_takeWhile_isDigit {ds : List Char} (h : ∀ c ∈ ds, c.isDigit = true)
    (more : List Char) : ds.length ≤ ((ds ++ more).takeWhile Char.isDigit).length := by
  rw [List.takeWhile_append_of_pos h, List.length_append]
  exact Nat.le_add_right _ _

/-- Where a numeral begins a text, that numeral is read or a longer one. -/
theorem Numeral.exists_read?_text {m : Numeral} (h : m.WellFormed) (more : List Char) :
    ∃ n rest, read? (m.text ++ more) = some (n, rest) ∧ m.text.length ≤ n.text.length := by
  obtain ⟨whole, fraction?⟩ := m
  cases fraction? with
  | none =>
    have htext : text ⟨whole, none⟩ = whole := by rw [text, List.append_nil]
    have hle := length_le_takeWhile_isDigit h.isDigit_whole more
    have hpos := List.length_pos_iff.mpr (h.whole_ne_nil rfl)
    have hne : (whole ++ more).takeWhile Char.isDigit ≠ [] :=
      List.length_pos_iff.mp (Nat.lt_of_lt_of_le hpos hle)
    rw [htext, read?]
    cases readFraction? ((whole ++ more).dropWhile Char.isDigit) with
    | none => exact ⟨_, _, if_neg hne, by simpa only [text, List.append_nil] using hle⟩
    | some found =>
      refine ⟨_, _, rfl, ?_⟩
      rw [text, List.length_append]
      exact Nat.le_add_right_of_le hle
  | some ds =>
    have hds : ds ≠ [] := fun hnil ↦ h.fraction?_ne (congrArg some hnil)
    have htext : text ⟨whole, some ds⟩ ++ more = whole ++ '.' :: (ds ++ more) := by
      rw [text, List.append_assoc, List.cons_append]
    have hpoint : ∀ c ∈ ('.' :: (ds ++ more)).head?, c.isDigit = false := by simp
    obtain ⟨htake, hdrop⟩ := takeWhile_isDigit_append h.isDigit_whole hpoint
    have hle := length_le_takeWhile_isDigit h.isDigit_fraction more
    rw [fraction, Option.getD_some] at hle
    have hpos := List.length_pos_iff.mpr hds
    have hne : (ds ++ more).takeWhile Char.isDigit ≠ [] :=
      List.length_pos_iff.mp (Nat.lt_of_lt_of_le hpos hle)
    rw [htext, read?, htake, hdrop, readFraction?, if_neg hne]
    refine ⟨_, _, rfl, ?_⟩
    simp only [text, List.length_append, List.length_cons]
    omega

/-- A numeral is a literal, and its value as a literal is its value. -/
theorem Numeral.WellFormed.literal_eq {n : Numeral} (h : n.WellFormed) :
    (Literal.read? n.text).map Literal.value = some n.value := by
  have hread := Literal.read?_signMark_text h none
  rw [signMark, List.nil_append] at hread
  rw [hread, Option.map_some, Literal.value_of_exponent_eq_zero]
  rfl

namespace Token

variable {text spelling rest : List Char} {t : Token}

/-- What is read of a token is a lexeme of it. -/
theorem hasLexeme_of_read? (h : read? text = some (t, spelling, rest)) :
    t.HasLexeme spelling := by
  unfold read? at h
  split at h
  · next n more hn =>
    obtain ⟨rfl, rfl, rfl⟩ := by simpa using h
    have hform := (Numeral.wellFormed_of_read? hn).1
    exact .number (isNumeral_iff.mpr ⟨n, hform, rfl⟩) hform.literal_eq
  · split at h
    · next c more _ =>
      cases hmark : ofMark? c with
      | none => simp [hmark] at h
      | some mark =>
        obtain ⟨rfl, rfl, rfl⟩ := by simpa [hmark] using h
        exact .mark (isMark_iff.mpr hmark)
    · cases h

/-- Where a lexeme begins a text, a token is read, and its spelling is no shorter. -/
theorem exists_read?_of_isLexeme {cs : List Char} (h : IsLexeme cs) (more : List Char) :
    ∃ t spelling rest, read? (cs ++ more) = some (t, spelling, rest) ∧
      cs.length ≤ spelling.length := by
  cases h with
  | number h =>
    obtain ⟨m, hm, rfl⟩ := isNumeral_iff.mp h
    obtain ⟨n, rest, hread, hle⟩ := Numeral.exists_read?_text hm more
    exact ⟨_, _, _, by rw [read?.eq_def, hread], hle⟩
  | @mark t c h =>
    rw [List.singleton_append]
    cases hread : Numeral.read? (c :: more) with
    | some found =>
      have hne := Numeral.text_ne_nil_of_read? hread
      exact ⟨_, _, _, by rw [read?, hread], List.length_pos_iff.mpr hne⟩
    | none => exact ⟨t, [c], more, by rw [read?, hread, isMark_iff.mp h]; rfl, Nat.le_refl _⟩

/-- No lexeme that begins a text is longer than the token that is read. -/
theorem length_le_of_read? (h : read? text = some (t, spelling, rest)) {cs : List Char}
    (hcs : IsLexeme cs) (hfront : cs <+: text) : cs.length ≤ spelling.length := by
  obtain ⟨more, rfl⟩ := hfront
  obtain ⟨t', spelling', rest', hread, hle⟩ := exists_read?_of_isLexeme hcs more
  obtain ⟨rfl, rfl, rfl⟩ := by simpa using h.symm.trans hread
  exact hle

/-- Where no token is read, no lexeme begins the text. -/
theorem not_isLexeme_of_read? (h : read? text = none) {cs : List Char} (hfront : cs <+: text) :
    ¬ IsLexeme cs := by
  obtain ⟨more, rfl⟩ := hfront
  intro hcs
  obtain ⟨t, spelling, rest, hread, -⟩ := exists_read?_of_isLexeme hcs more
  cases h.symm.trans hread

end Token

/-- Every numeral is a literal, and its double is a number without a sign. -/
theorem IsNumeral.exists_literal {cs : List Char} (h : IsNumeral cs) :
    ∃ l, Literal.read? cs = some l ∧ l.value.isNaN = false ∧ isNegative l.value = false := by
  obtain ⟨n, hn, rfl⟩ := isNumeral_iff.mp h
  obtain ⟨l, hl, hvalue⟩ := Option.map_eq_some_iff.mp hn.literal_eq
  obtain ⟨hnumber, hsign⟩ := Magnitude.toFloat_isNumber n.decimal.magnitude_le
  exact ⟨l, hl, hvalue ▸ hnumber, hvalue ▸ hsign⟩

end DeskCalculator
