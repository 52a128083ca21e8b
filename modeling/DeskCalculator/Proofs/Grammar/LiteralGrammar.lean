import DeskCalculator.Text.Blank
import DeskCalculator.Proofs.Grammar.LiteralSource
import DeskCalculator.Proofs.Number.Nearest
import DeskCalculator.Proofs.Scan.Lexeme

/-!
# The grammar of literals

An input that is one literal denotes a number, and a function key takes the double to which this
number is rounded. The grammar

```text
literal  := sign? mantissa exponent?
mantissa := digit+ ("." digit*)? | "." digit+
exponent := ("e" | "E") sign? digit+
```

is given here without a reader, and each of its texts with the number for which it stands. Spaces
around a literal mean nothing, and no other input denotes anything. The texts of the grammar are
those of doubles in general, as far as they have no other characters than digits, points, signs and
the mark of an exponent: the words for infinity and for what is not a number are left out.

## Main definitions

* `IsMantissa`, `IsExponent`, `IsLiteral`: the texts of the grammar, with the numbers they stand
  for.
* `Denotes`: an input that is a literal with spaces around it.
* `IsDoubleText`, `IsPlainCharacter`: the texts of doubles in general, and the characters that are
  let through.
* `IsSpecialWord`: the words for infinity and for what is not a number.

## Main results

* `Literal.isLiteral_of_read?`, `Literal.exists_read?_of_isLiteral`: the reader and the grammar
  agree.
* `exists_isLiteral_iff`: the literals among the texts of doubles.
* `operandOf_literal_grammar`: which inputs are accepted, and their values.
-/

namespace DeskCalculator

/-! ### The grammar -/

/-- The number that is written with decimal digits. -/
def digitsValue (ds : List Char) : Nat := Nat.ofDigitChars 10 ds 0

/-- The texts of mantissas, with the numbers they stand for. -/
inductive IsMantissa : List Char → ℚ → Prop
  /-- Digits alone. -/
  | whole {ds} (h : IsDigits ds) : IsMantissa ds (digitsValue ds)
  /-- Digits before a point, with or without digits behind it. -/
  | pointed {ds es} (h : IsDigits ds) (h' : ∀ c ∈ es, c.isDigit = true) :
      IsMantissa (ds ++ '.' :: es) (digitsValue ds + digitsValue es / 10 ^ es.length)
  /-- Digits behind a point alone. -/
  | fraction {es} (h : IsDigits es) : IsMantissa ('.' :: es) (digitsValue es / 10 ^ es.length)

/-- The texts of exponents, with the powers of ten they stand for. -/
inductive IsExponent : List Char → Int → Prop
  /-- No exponent. -/
  | none : IsExponent [] 0
  /-- Digits behind a mark, which may have a sign. -/
  | marked {e ds} (sign? : Option Sign) (he : e = 'e' ∨ e = 'E') (h : IsDigits ds) :
      IsExponent (e :: (signMark sign? ++ ds))
        (if sign? = some .minus then -digitsValue ds else digitsValue ds)

/-- The texts of literals, with their signs and with the numbers they stand for but for the sign. -/
inductive IsLiteral : List Char → Sign → ℚ → Prop
  /-- A mantissa between a sign and an exponent. -/
  | mk {m q e n} (sign? : Option Sign) (hm : IsMantissa m q) (he : IsExponent e n) :
      IsLiteral (signMark sign? ++ m ++ e) (sign?.getD .plus) (q * 10 ^ n)

/-- The input is a literal with spaces around it, and stands for a number with a sign. -/
def Denotes (input : String) (sign : Sign) (q : ℚ) : Prop :=
  ∃ before text after, IsLiteral text sign q ∧
    input.toList = List.replicate before ' ' ++ text ++ List.replicate after ' '

/-- The characters that are let through: those that literals are made of. -/
def IsPlainCharacter (c : Char) : Prop := c.isDigit = true ∨ c ∈ ['.', '+', '-', 'e', 'E']

/-- The words for infinity and for what is not a number, in small letters or capitals. -/
def IsSpecialWord (word : List Char) : Prop :=
  word.map Char.toLower ∈ ["inf".toList, "infinity".toList, "nan".toList]

/-- The texts of doubles in general. -/
inductive IsDoubleText : List Char → Prop
  /-- A literal. -/
  | literal {text sign q} (h : IsLiteral text sign q) : IsDoubleText text
  /-- A word behind a sign, if there is one. -/
  | word {word} (sign? : Option Sign) (h : IsSpecialWord word) :
      IsDoubleText (signMark sign? ++ word)

/-! ### Mantissas -/

theorem digitsValue_append (ds es : List Char) :
    digitsValue (ds ++ es) = digitsValue ds * 10 ^ es.length + digitsValue es := by
  rw [digitsValue, digitsValue, digitsValue, Nat.ofDigitChars_append,
    Nat.ofDigitChars_eq_ofDigitChars_zero, Nat.mul_comm]

/-- The number of digits around a point. -/
theorem Numeral.value_decimal (n : Numeral) : n.decimal.value =
    digitsValue n.whole + digitsValue n.fraction / 10 ^ n.fraction.length := by
  have hten : (10 : ℚ) ^ n.fraction.length ≠ 0 := pow_ne_zero _ (by norm_num)
  have hdigits := digitsValue_append n.whole n.fraction
  rw [digitsValue] at hdigits
  rw [decimal, Decimal.value, hdigits, zpow_neg, zpow_natCast, Nat.cast_add, Nat.cast_mul,
    Nat.cast_pow, Nat.cast_ofNat, add_mul, mul_inv_cancel_right₀ hten, div_eq_mul_inv]

/-- The texts of mantissas are those of numerals that have a digit. -/
theorem isMantissa_iff {m : List Char} {q : ℚ} :
    IsMantissa m q ↔ ∃ n : Numeral, n.HasDigits ∧ n.text = m ∧ n.decimal.value = q := by
  constructor
  · rintro (h | ⟨h, h'⟩ | h)
    · refine ⟨⟨m, none⟩, ⟨h.2, List.forall_mem_nil _, .inl h.1⟩, List.append_nil m, ?_⟩
      simp [Numeral.value_decimal, Numeral.fraction, digitsValue]
    · exact ⟨⟨_, some _⟩, ⟨h.2, h', .inl h.1⟩, rfl, Numeral.value_decimal _⟩
    · refine ⟨⟨[], some _⟩, ⟨List.forall_mem_nil _, h.2, .inr h.1⟩, rfl, ?_⟩
      simp [Numeral.value_decimal, Numeral.fraction, digitsValue]
  · rintro ⟨⟨whole, fraction?⟩, ⟨hwhole, hfraction, hne⟩, rfl, rfl⟩
    rw [Numeral.value_decimal]
    cases fraction? with
    | none =>
      have hmantissa := IsMantissa.whole ⟨hne.resolve_right (not_not.mpr rfl), hwhole⟩
      simpa [Numeral.text, Numeral.fraction, digitsValue] using hmantissa
    | some es =>
      change ∀ c ∈ es, c.isDigit at hfraction
      by_cases hnil : whole = []
      · have hmantissa := IsMantissa.fraction ⟨hne.resolve_left (not_not.mpr hnil), hfraction⟩
        simpa [Numeral.text, Numeral.fraction, digitsValue, hnil] using hmantissa
      · exact .pointed ⟨hnil, hwhole⟩ hfraction

/-! ### The reader -/

namespace Literal

variable {text : List Char}

/-- An exponent is read exactly where the grammar has one. -/
theorem readExponent?_eq_some_iff {n : Int} : readExponent? text = some n ↔ IsExponent text n := by
  constructor
  · intro h
    cases text with
    | nil =>
      obtain rfl := Option.some.inj h
      exact .none
    | cons e rest =>
      obtain ⟨sign?, ds, hsign, rfl⟩ := exists_readSign rest
      rw [readExponent?, hsign] at h
      simp only [Option.ite_none_right_eq_some, List.all_eq_true] at h
      obtain ⟨⟨he, hne, hdigits⟩, hn⟩ := h
      have hmarked := IsExponent.marked sign? he ⟨hne, hdigits⟩
      rcases sign? with _ | _ | _ <;> (cases hn; exact hmarked)
  · rintro (_ | ⟨sign?, he, h⟩)
    · rfl
    · obtain ⟨c, cs, rfl⟩ := List.exists_cons_of_ne_nil h.1
      have hdigit := h.2 c List.mem_cons_self
      rw [readExponent?, readSign_append ⟨c, rfl, .inl hdigit⟩]
      simp only [List.all_eq_true]
      rw [if_pos ⟨he, h.1, h.2⟩]
      rcases sign? with _ | _ | _ <;> rfl

/-- The exponent of ten multiplies the mantissa. -/
theorem value_decimal (l : Literal) :
    l.decimal.value = l.mantissa.decimal.value * 10 ^ l.exponent := by
  rw [Decimal.value, decimal, zpow_add₀ (by norm_num), ← mul_assoc]
  rfl

/-- A literal that is read is a literal of the grammar. -/
theorem isLiteral_of_read? {l : Literal} (h : read? text = some l) :
    IsLiteral text l.sign l.decimal.value := by
  obtain ⟨sign?, unsigned, hsign, rfl⟩ := exists_readSign text
  rw [read?, hsign] at h
  obtain ⟨⟨m, rest⟩, hmantissa, h⟩ := Option.bind_eq_some_iff.mp h
  obtain ⟨n, hexponent, h⟩ := Option.bind_eq_some_iff.mp h
  obtain rfl := Option.some.inj h
  obtain ⟨rfl, hdigits⟩ := readMantissa?_eq_some hmantissa
  have hliteral := IsLiteral.mk sign?
    (isMantissa_iff.mpr ⟨m, hdigits, rfl, rfl⟩) (readExponent?_eq_some_iff.mp hexponent)
  rw [List.append_assoc] at hliteral
  rw [value_decimal]
  exact hliteral

/-- Every literal of the grammar is read. -/
theorem exists_read?_of_isLiteral {sign : Sign} {q : ℚ} (h : IsLiteral text sign q) :
    ∃ l, read? text = some l ∧ l.sign = sign ∧ l.decimal.value = q := by
  obtain @⟨m, q, e, n, sign?, hm, he⟩ := h
  obtain ⟨m, hdigits, rfl, rfl⟩ := isMantissa_iff.mp hm
  have hrest : EndsNumeral e := by
    rcases he with _ | ⟨-, rfl | rfl, -⟩ <;> simp [EndsNumeral]
  refine ⟨⟨sign?.getD .plus, m, n⟩, ?_, rfl, value_decimal _⟩
  rw [read?, List.append_assoc, readSign_append (head_of_hasDigits hdigits e)]
  simp [readMantissa?_append hdigits hrest, readExponent?_eq_some_iff.mpr he]

end Literal

/-- No literal is empty. -/
theorem IsLiteral.ne_nil {text : List Char} {sign : Sign} {q : ℚ} (h : IsLiteral text sign q) :
    text ≠ [] := by
  obtain ⟨sign?, hm, -⟩ := h
  obtain ⟨m, hdigits, rfl, -⟩ := isMantissa_iff.mp hm
  obtain ⟨c, hc, -⟩ := Literal.head_of_hasDigits hdigits []
  rw [List.append_nil] at hc
  have hmem := List.mem_of_mem_head? hc
  exact List.ne_nil_of_mem (List.mem_append_left _ (List.mem_append_right _ hmem))

/-! ### Characters -/

theorem isPlainCharacter_of_mem_digits {ds : List Char} (h : ∀ c ∈ ds, c.isDigit = true) :
    ∀ c ∈ ds, IsPlainCharacter c := fun c hc ↦ .inl (h c hc)

theorem isPlainCharacter_of_mem_signMark (sign? : Option Sign) :
    ∀ c ∈ signMark sign?, IsPlainCharacter c := by
  rcases sign? with _ | _ | _ <;> simp [signMark, IsPlainCharacter]

theorem IsMantissa.isPlainCharacter {m : List Char} {q : ℚ} (h : IsMantissa m q) :
    ∀ c ∈ m, IsPlainCharacter c := by
  have hpoint : IsPlainCharacter '.' := .inr List.mem_cons_self
  rcases h with h | ⟨h, h'⟩ | h
  · exact isPlainCharacter_of_mem_digits h.2
  · exact List.forall_mem_append.mpr ⟨isPlainCharacter_of_mem_digits h.2,
      List.forall_mem_cons.mpr ⟨hpoint, isPlainCharacter_of_mem_digits h'⟩⟩
  · exact List.forall_mem_cons.mpr ⟨hpoint, isPlainCharacter_of_mem_digits h.2⟩

theorem IsExponent.isPlainCharacter {e : List Char} {n : Int} (h : IsExponent e n) :
    ∀ c ∈ e, IsPlainCharacter c := by
  rcases h with _ | ⟨sign?, he, h⟩
  · exact List.forall_mem_nil _
  · refine List.forall_mem_cons.mpr ⟨.inr ?_, List.forall_mem_append.mpr
      ⟨isPlainCharacter_of_mem_signMark sign?, isPlainCharacter_of_mem_digits h.2⟩⟩
    rcases he with rfl | rfl <;> simp

/-- A literal is made of characters that are let through. -/
theorem IsLiteral.isPlainCharacter {text : List Char} {sign : Sign} {q : ℚ}
    (h : IsLiteral text sign q) : ∀ c ∈ text, IsPlainCharacter c := by
  obtain ⟨sign?, hm, he⟩ := h
  exact List.forall_mem_append.mpr ⟨List.forall_mem_append.mpr
    ⟨isPlainCharacter_of_mem_signMark sign?, hm.isPlainCharacter⟩, he.isPlainCharacter⟩

/-- No character that is let through is blank. -/
theorem IsPlainCharacter.isBlank_eq {c : Char} (h : IsPlainCharacter c) : isBlank c = false := by
  rcases h with h | h
  · exact isBlank_eq_false_of_isDigit h
  · simp only [List.mem_cons, List.not_mem_nil, or_false] at h
    rcases h with rfl | rfl | rfl | rfl | rfl <;> decide

/-- No character that is let through is the letter that occurs in every word. -/
theorem IsPlainCharacter.toLower_ne {c : Char} (h : IsPlainCharacter c) : c.toLower ≠ 'n' := by
  rcases h with h | h
  · have hle : c.toNat ≤ 57 := (Char.isDigit_iff_toNat.mp h).2
    have hlower : c.toLower = c := dif_neg fun hletter ↦ by
      have hge : 65 ≤ c.toNat := UInt32.le_iff_toNat_le.mp hletter.1
      omega
    rintro hn
    rw [hlower] at hn
    rw [hn] at h
    cases h
  · simp only [List.mem_cons, List.not_mem_nil, or_false] at h
    rcases h with rfl | rfl | rfl | rfl | rfl <;> decide

/-- Every word has a character that is neither a space nor let through. -/
theorem IsSpecialWord.exists_mem {word : List Char} (h : IsSpecialWord word) :
    ∃ c ∈ word, c ≠ ' ' ∧ ¬ IsPlainCharacter c := by
  have hletter : 'n' ∈ word.map Char.toLower := by
    simp only [IsSpecialWord, List.mem_cons, List.not_mem_nil, or_false] at h
    rcases h with h | h | h <;> rw [h] <;> decide
  obtain ⟨c, hc, hlower⟩ := List.mem_map.mp hletter
  refine ⟨c, hc, ?_, fun hplain ↦ hplain.toLower_ne hlower⟩
  rintro rfl
  cases hlower

/-- The literals are the texts of doubles that are made of characters that are let through. -/
theorem exists_isLiteral_iff {text : List Char} : (∃ sign q, IsLiteral text sign q) ↔
    (∀ c ∈ text, IsPlainCharacter c) ∧ IsDoubleText text := by
  constructor
  · rintro ⟨sign, q, h⟩
    exact ⟨h.isPlainCharacter, .literal h⟩
  · rintro ⟨hplain, h | ⟨sign?, h⟩⟩
    · exact ⟨_, _, h⟩
    · obtain ⟨c, hc, -, hnot⟩ := h.exists_mem
      exact absurd (hplain c (List.mem_append_right _ hc)) hnot

/-! ### Inputs -/

/-- What an input denotes is what is left of it without the spaces around. -/
theorem denotes_iff {input : String} {sign : Sign} {q : ℚ} :
    Denotes input sign q ↔ IsLiteral (trimSpaces input.toList) sign q := by
  constructor
  · rintro ⟨before, text, after, h, hinput⟩
    have hspaces : ∀ c ∈ text, c ≠ ' ' := by
      rintro _ hc rfl
      exact absurd (h.isPlainCharacter _ hc).isBlank_eq (by decide)
    rwa [hinput, trimSpaces_append hspaces h.ne_nil]
  · intro h
    obtain ⟨before, after, hinput⟩ := exists_trimSpaces input.toList
    exact ⟨before, _, after, h, hinput⟩

/-- An input is accepted exactly if it is a literal. -/
theorem exists_operandOf_iff {input : String} :
    (∃ v, operandOf input = .ok v) ↔ ∃ sign q, Denotes input sign q := by
  simp only [denotes_iff, operandOf]
  constructor
  · rintro ⟨v, hv⟩
    cases hread : Literal.read? (trimSpaces input.toList) with
    | none => simp [hread] at hv
    | some l => exact ⟨_, _, Literal.isLiteral_of_read? hread⟩
  · rintro ⟨sign, q, h⟩
    obtain ⟨l, hread, -, -⟩ := Literal.exists_read?_of_isLiteral h
    exact ⟨l.value, by rw [hread]⟩

/-- The only error of an input is that it is no literal, and has the whole input. -/
theorem operandOf_eq_error {input : String} {e : DomainError} (h : operandOf input = .error e) :
    e = .invalidLiteral input := by
  unfold operandOf at h
  split at h
  · cases h
  · exact (Except.error.inj h).symm

/-- An input that is not accepted is no literal. -/
theorem operandOf_of_not_denotes {input : String} (h : ¬ ∃ sign q, Denotes input sign q) :
    operandOf input = .error (.invalidLiteral input) := by
  cases hoperand : operandOf input with
  | ok v => exact absurd (exists_operandOf_iff.mp ⟨v, hoperand⟩) h
  | error e => rw [operandOf_eq_error hoperand]

/-- The characters of an input that denotes something are spaces or are let through. -/
theorem Denotes.isPlainCharacter {input : String} {sign : Sign} {q : ℚ}
    (h : Denotes input sign q) : ∀ c ∈ input.toList, c = ' ' ∨ IsPlainCharacter c := by
  obtain ⟨before, text, after, h, hinput⟩ := h
  intro c hc
  simp only [hinput, List.mem_append, List.mem_replicate] at hc
  rcases hc with (⟨-, hc⟩ | hc) | ⟨-, hc⟩
  · exact .inl hc
  · exact .inr (h.isPlainCharacter c hc)
  · exact .inl hc

/-- The value of an input is the double to which the number is rounded that it denotes. -/
theorem Denotes.exists_operandOf {input : String} {sign : Sign} {q : ℚ}
    (h : Denotes input sign q) : ∃ v, operandOf input = .ok v ∧ IsRounded (sign.signed q) v ∧
      isNegative v = decide (sign = .minus) := by
  obtain ⟨l, hread, rfl, rfl⟩ := Literal.exists_read?_of_isLiteral (denotes_iff.mp h)
  exact ⟨l.value, by rw [operandOf, hread], l.decimal.isRounded_apply_toFloat l.sign⟩

/-- An input is refused for a character that is neither a space nor let through. -/
theorem operandOf_of_not_plain {input : String} {c : Char} (hc : c ∈ input.toList)
    (hspace : c ≠ ' ') (hplain : ¬ IsPlainCharacter c) :
    operandOf input = .error (.invalidLiteral input) :=
  operandOf_of_not_denotes fun ⟨_, _, h⟩ ↦ (h.isPlainCharacter c hc).elim hspace hplain

/-- **An input is accepted exactly if it is a literal between spaces, and has the nearest double as
its value.** The double is never what is not a number, it is infinite if the number is too large,
and it has the sign of the literal even if it is a zero. Every other input is refused, and named in
the error as it stands. The literals are those texts of doubles that have no letter but the mark of
an exponent, so the words for infinity and for what is not a number are refused in any spelling, and
so is every other blank than a space. -/
theorem operandOf_literal_grammar (input : String) :
    ((∃ v, operandOf input = .ok v) ↔ ∃ sign q, Denotes input sign q) ∧
    (∀ sign q, Denotes input sign q → ∃ v, operandOf input = .ok v ∧
      IsRounded (sign.signed q) v ∧ isNegative v = decide (sign = .minus)) ∧
    ((¬ ∃ sign q, Denotes input sign q) → operandOf input = .error (.invalidLiteral input)) ∧
    ((∃ sign q, Denotes input sign q) ↔ (∀ c ∈ trimSpaces input.toList, IsPlainCharacter c) ∧
      IsDoubleText (trimSpaces input.toList)) ∧
    (∀ c ∈ input.toList, isBlank c = true → c ≠ ' ' →
      operandOf input = .error (.invalidLiteral input)) ∧
    ∀ before word after, input.toList = before ++ word ++ after → IsSpecialWord word →
      operandOf input = .error (.invalidLiteral input) := by
  refine ⟨exists_operandOf_iff, fun _ _ ↦ Denotes.exists_operandOf, operandOf_of_not_denotes, ?_,
    fun c hc hblank hspace ↦ ?_, fun before word after hinput hword ↦ ?_⟩
  · simp only [denotes_iff]
    exact exists_isLiteral_iff
  · refine operandOf_of_not_plain hc hspace fun hplain ↦ ?_
    rw [hplain.isBlank_eq] at hblank
    cases hblank
  · obtain ⟨c, hc, hspace, hplain⟩ := hword.exists_mem
    have hmem : c ∈ input.toList := by
      rw [hinput]
      exact List.mem_append_left _ (List.mem_append_right _ hc)
    exact operandOf_of_not_plain hmem hspace hplain

/-- A literal that is too small for a double is a zero with its sign. An input with a tab or with a
word for infinity is refused, and so is one with a space within. -/
theorem operandOf_literal_grammar_zero :
    (Denotes "  -.5E-324 " .minus (5 / 10 * 10 ^ (-324 : Int)) ∧
      ∃ v, operandOf "  -.5E-324 " = .ok v ∧
        IsRounded (Sign.minus.signed (5 / 10 * 10 ^ (-324 : Int))) v ∧ isNegative v = true) ∧
    (¬ (∃ sign q, Denotes "1. e5" sign q) ∧ operandOf "1. e5" = .error (.invalidLiteral "1. e5")) ∧
    ('\t' ∈ "1\t".toList ∧ operandOf "1\t" = .error (.invalidLiteral "1\t")) ∧
    (IsSpecialWord "iNfInity".toList ∧
      operandOf " -iNfInity" = .error (.invalidLiteral " -iNfInity")) := by
  have hdenotes : Denotes "  -.5E-324 " .minus (5 / 10 * 10 ^ (-324 : Int)) := by
    have hdigit : IsDigits ['5'] := ⟨by simp, by simp⟩
    have hexponent : IsDigits ['3', '2', '4'] := ⟨by simp, by simp⟩
    have hliteral := IsLiteral.mk (some .minus) (.fraction hdigit)
      (.marked (some .minus) (.inr rfl) hexponent)
    exact ⟨2, _, 1, by simpa [digitsValue, Nat.ofDigitChars] using hliteral, rfl⟩
  have hspace : ¬ ∃ sign q, Denotes "1. e5" sign q := by
    rw [← exists_operandOf_iff]
    rintro ⟨v, hv⟩
    cases hv
  have htab : '\t' ∈ "1\t".toList := by decide
  have hword : IsSpecialWord "iNfInity".toList := by
    rw [IsSpecialWord]
    decide +kernel
  exact ⟨⟨hdenotes, (operandOf_literal_grammar _).2.1 _ _ hdenotes⟩,
    ⟨hspace, (operandOf_literal_grammar _).2.2.1 hspace⟩,
    ⟨htab, (operandOf_literal_grammar _).2.2.2.2.1 _ htab (by decide) (by decide)⟩,
    hword, (operandOf_literal_grammar _).2.2.2.2.2 " -".toList _ [] rfl hword⟩

end DeskCalculator
