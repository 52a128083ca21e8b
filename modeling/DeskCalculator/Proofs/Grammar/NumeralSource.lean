import DeskCalculator.FunctionKey
import DeskCalculator.Proofs.Grammar.Evaluation
import DeskCalculator.Proofs.Number.PlainText
import DeskCalculator.Proofs.Scan.Joined

/-!
# Sources that are one numeral

A well-formed numeral may have a sign directly before it and spaces around both. As a source it has
a piece for the sign, if there is one, and a piece for the numeral, and its value is that of the
numeral with the sign. As an input it is read as a literal of the same value.

## Main definitions

* `SpacedNumeral`: a numeral with at most one sign and with spaces around it.

## Main results

* `SpacedNumeral.evaluate_text`, `SpacedNumeral.operandOf_text`: its value as a source and as an
  input.
* `evaluate_numeral`, `evaluate_minus_numeral`, `operandOf_numeral`, `operandOf_minus_numeral`: the
  same for numerals without spaces.
-/

namespace DeskCalculator

variable {n : Numeral}

/-! ### The pieces of signs and numerals -/

/-- The token of a sign, and nothing for no sign. -/
def signTokens : Option Sign → List Token
  | none => []
  | some .plus => [.plus]
  | some .minus => [.minus]

/-- No character of a numeral is a space. -/
theorem Numeral.WellFormed.ne_space (h : n.WellFormed) : ∀ c ∈ n.text, c ≠ ' ' := by
  rintro c hc rfl
  have hchar := h.of_mem_text ' ' hc
  simp at hchar

/-- The first piece of a text that begins with a numeral is the numeral, if it stops there. -/
theorem exists_scan_numeral (h : n.WellFormed) {rest : List Char} (hrest : n.StopsAt rest)
    (start : Nat) : ∃ p start', p.token? = some (.number n.value) ∧
      scan start (n.text ++ rest) = p :: scan start' rest := by
  have hread := Numeral.read?_append h hrest
  have hspace := h.ne_space
  cases htext : n.text with
  | nil => exact absurd htext h.text_ne_nil
  | cons c cs =>
    rw [htext, List.cons_append] at hread
    rw [htext] at hspace
    have htoken : Token.read? (c :: (cs ++ rest)) = some (.number n.value, n.text, rest) := by
      rw [Token.read?, hread]
    rw [List.cons_append, scan_piece start _ (hspace c List.mem_cons_self), Piece.first, htoken]
    exact ⟨_, _, rfl, rfl⟩

/-- A sign is a piece of its own. -/
theorem exists_scan_signMark (sign? : Option Sign) (start : Nat) (text : List Char) :
    ∃ ps start', Spells ps (signTokens sign?) ∧
      scan start (signMark sign? ++ text) = ps ++ scan start' text := by
  match sign? with
  | none => exact ⟨[], start, rfl, rfl⟩
  | some .plus | some .minus =>
    rw [signMark, List.singleton_append, scan_solitary (isSolitary_of_ofMark? rfl)]
    refine ⟨[_], _, ?_, rfl⟩
    rfl

/-! ### Factors on their own -/

/-- The derivation of a factor on its own as an expression. -/
def Derivation.ofFactor (d : Derivation .factor) : Derivation .expression :=
  .chain .sum (.chain .product d (.done _)) (.done _)

theorem Derivation.tokens_ofFactor (d : Derivation .factor) : d.ofFactor.tokens = d.tokens := by
  simp only [ofFactor, Derivation.tokens, Continuation.tokens, List.append_nil]
  rfl

/-- A factor on its own has the value of the factor. -/
theorem evaluate_ofFactor {lib : Elementary} {source : String} (d : Derivation .factor)
    (hs : Spells (scan 0 source.toList) d.tokens) (hn : d.nesting ≤ nestingLimit) :
    evaluate lib source = .ok (d.value lib) := by
  have hspells : Spells (pieces source).toList d.ofFactor.tokens := by
    rwa [d.tokens_ofFactor, toList_pieces]
  have hnesting : ∀ m ∈ some nestingLimit, d.ofFactor.nesting ≤ m := by
    rintro m ⟨⟩
    exact Nat.max_le.mpr ⟨Nat.max_le.mpr ⟨hn, Nat.zero_le _⟩, Nat.zero_le _⟩
  exact evaluateWithin_of_derivation d.ofFactor hspells hnesting

/-- The derivation of a number behind a sign, or behind none. -/
def Derivation.ofNumber (v : Float) : Option Sign → Derivation .factor
  | none => .plain (.number v)
  | some .plus => .signed .plus .plus rfl (.plain (.number v))
  | some .minus => .signed .minus .minus rfl (.plain (.number v))

theorem Derivation.tokens_ofNumber (v : Float) (sign? : Option Sign) :
    (ofNumber v sign?).tokens = signTokens sign? ++ [.number v] := by
  rcases sign? with _ | _ | _ <;> simp [ofNumber, Derivation.tokens, signTokens]

theorem Derivation.value_ofNumber (lib : Elementary) (v : Float) (sign? : Option Sign) :
    (ofNumber v sign?).value lib = (sign?.getD .plus).apply v := by
  rcases sign? with _ | _ | _ <;> simp [ofNumber, Derivation.value, Sign.apply]

theorem Derivation.nesting_ofNumber_le (v : Float) (sign? : Option Sign) :
    (ofNumber v sign?).nesting ≤ 2 := by
  rcases sign? with _ | _ | _ <;> simp [ofNumber, Derivation.nesting]

/-! ### Numerals with a sign and spaces -/

/-- A numeral with at most one sign directly before it, and with spaces around both. -/
structure SpacedNumeral where
  /-- The number of spaces before the sign and the numeral. -/
  before : Nat
  /-- The sign, if there is one. -/
  sign? : Option Sign
  /-- The numeral. -/
  numeral : Numeral
  /-- The number of spaces behind the numeral. -/
  after : Nat

namespace SpacedNumeral

/-- The written form. -/
def text (s : SpacedNumeral) : List Char :=
  List.replicate s.before ' ' ++ (signMark s.sign? ++ s.numeral.text) ++ List.replicate s.after ' '

/-- The value of the numeral with the sign. -/
def value (s : SpacedNumeral) : Float := (s.sign?.getD .plus).apply s.numeral.value

variable {s : SpacedNumeral}

/-- A numeral ends at spaces. -/
theorem endsNumeral_replicate (k : Nat) : EndsNumeral (List.replicate k ' ') := by
  cases k with
  | zero => exact endsNumeral_nil
  | succ k => simp [EndsNumeral, List.replicate_succ]

/-- The pieces are the sign, if there is one, and the numeral. -/
theorem spells_text (h : s.numeral.WellFormed) (start : Nat) :
    Spells (scan start s.text) (signTokens s.sign? ++ [.number s.numeral.value]) := by
  obtain ⟨ps, start', hps, hsign⟩ := exists_scan_signMark s.sign? (start + s.before)
    (s.numeral.text ++ List.replicate s.after ' ')
  obtain ⟨p, start'', hp, hnumeral⟩ :=
    exists_scan_numeral h ((endsNumeral_replicate s.after).stopsAt _) start'
  rw [text, List.append_assoc, scan_replicate_append, List.append_assoc, hsign, hnumeral,
    scan_replicate]
  exact spells_append_iff.mpr ⟨ps, [p], rfl, hps, spells_cons_iff.mpr ⟨p, [], rfl, hp, rfl⟩⟩

/-- As a source, a numeral with a sign has its value. -/
theorem evaluate_text (lib : Elementary) (h : s.numeral.WellFormed) :
    evaluate lib (String.ofList s.text) = .ok s.value := by
  have hspells : Spells (scan 0 (String.ofList s.text).toList)
      (Derivation.ofNumber s.numeral.value s.sign?).tokens := by
    rw [String.toList_ofList, Derivation.tokens_ofNumber]
    exact spells_text h 0
  have hnesting := Nat.le_trans (Derivation.nesting_ofNumber_le s.numeral.value s.sign?)
    (by decide : 2 ≤ nestingLimit)
  rw [evaluate_ofFactor _ hspells hnesting, Derivation.value_ofNumber]
  rfl

/-- Without the spaces around it, a numeral with a sign is left. -/
theorem trimSpaces_text (h : s.numeral.WellFormed) :
    trimSpaces s.text = signMark s.sign? ++ s.numeral.text := by
  have hne := List.append_ne_nil_of_right_ne_nil (signMark s.sign?) h.text_ne_nil
  refine trimSpaces_append (fun c hc ↦ ?_) hne s.before s.after
  rcases List.mem_append.mp hc with hc | hc
  · rcases hsign : s.sign? with _ | _ | _ <;> simp_all [signMark]
  · exact h.ne_space c hc

/-- As an input, a numeral with a sign has its value. -/
theorem operandOf_text (h : s.numeral.WellFormed) :
    operandOf (String.ofList s.text) = .ok s.value := by
  rw [operandOf, String.toList_ofList, trimSpaces_text h, Literal.read?_signMark_text h]
  exact congrArg Except.ok (Literal.value_of_exponent_eq_zero _ s.numeral)

/-- A numeral alone, and a numeral behind a minus, without spaces. -/
theorem text_of_numeral (n : Numeral) : text ⟨0, none, n, 0⟩ = n.text := by
  simp [text, signMark]

theorem text_of_minus_numeral (n : Numeral) : text ⟨0, some .minus, n, 0⟩ = '-' :: n.text := by
  simp [text, signMark]

end SpacedNumeral

/-- A numeral has its value. -/
theorem evaluate_numeral (lib : Elementary) (h : n.WellFormed) :
    evaluate lib (String.ofList n.text) = .ok n.value := by
  rw [← SpacedNumeral.text_of_numeral]
  exact SpacedNumeral.evaluate_text lib h

/-- A numeral behind a minus has the negated value. -/
theorem evaluate_minus_numeral (lib : Elementary) (h : n.WellFormed) :
    evaluate lib (String.ofList ('-' :: n.text)) = .ok (-n.value) := by
  rw [← SpacedNumeral.text_of_minus_numeral]
  exact SpacedNumeral.evaluate_text lib h

/-- A numeral is an input with its value. -/
theorem operandOf_numeral (h : n.WellFormed) :
    operandOf (String.ofList n.text) = .ok n.value := by
  rw [← SpacedNumeral.text_of_numeral]
  exact SpacedNumeral.operandOf_text h

/-- A numeral behind a minus is an input with the negated value. -/
theorem operandOf_minus_numeral (h : n.WellFormed) :
    operandOf (String.ofList ('-' :: n.text)) = .ok (-n.value) := by
  rw [← SpacedNumeral.text_of_minus_numeral]
  exact SpacedNumeral.operandOf_text h

end DeskCalculator
