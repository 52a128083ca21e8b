import DeskCalculator.Proofs.Grammar.NumeralSource

/-!
# The characters of expressions

A source with a value has no stray character, so each of its characters is a space or belongs to a
token. In turn every digit is a numeral, and every other character of a token occurs in some
expression. So the characters that occur in sources with a value are those of spaces and tokens.

## Main definitions

* `IsLexical`: the characters of spaces and tokens.

## Main results

* `isLexical_iff_exists_evaluate`: the characters that occur in sources with a value.
-/

namespace DeskCalculator

/-- A space, or a character that occurs in tokens. -/
def IsLexical (c : Char) : Prop :=
  c = ' ' ∨ c.isDigit = true ∨ c = '.' ∨ (Token.ofMark? c).isSome = true

/-- The characters of a token that is read are those of tokens. -/
theorem isLexical_of_read? {text spelling rest : List Char} {t : Token}
    (h : Token.read? text = some (t, spelling, rest)) : ∀ c ∈ spelling, IsLexical c := by
  unfold Token.read? at h
  split at h
  · next n more hn =>
    obtain ⟨-, rfl, -⟩ := by simpa using h
    intro c hc
    rcases (Numeral.wellFormed_of_read? hn).1.of_mem_text c hc with hdigit | hpoint
    · exact .inr (.inl hdigit)
    · exact .inr (.inr (.inl hpoint))
  · split at h
    · next c more _ =>
      cases hmark : Token.ofMark? c with
      | none => simp [hmark] at h
      | some mark =>
        obtain ⟨-, rfl, -⟩ := by simpa [hmark] using h
        rw [List.forall_mem_singleton]
        exact .inr (.inr (.inr (Option.isSome_of_eq_some hmark)))
    · cases h

/-- A text without a stray character is made of characters of spaces and tokens. -/
theorem isLexical_of_scan {start : Nat} {text : List Char}
    (h : ∀ p ∈ scan start text, p.token? ≠ none) : ∀ c ∈ text, IsLexical c := by
  induction start, text, (#[] : Array Piece) using scanFrom.induct with
  | case1 => simp
  | case2 start _ rest ih =>
    rw [scan_space] at h
    rw [List.forall_mem_cons]
    exact ⟨.inl rfl, ih h⟩
  | case3 start _ c rest hc ih =>
    rw [scan_piece start rest hc, List.forall_mem_cons] at h
    obtain ⟨hpiece, hrest⟩ := h
    rw [← Piece.append_of_first start c rest, List.forall_mem_append]
    refine ⟨?_, ih hrest⟩
    unfold Piece.first at hpiece ⊢
    cases hread : Token.read? (c :: rest) with
    | none => simp [hread] at hpiece
    | some found =>
      obtain ⟨t, spelling, more⟩ := found
      rw [String.toList_ofList]
      exact isLexical_of_read? hread

/-- A source with a value has no stray character. -/
theorem token?_ne_none_of_evaluate {lib : Elementary} {source : String} {v : Float}
    (h : evaluate lib source = .ok v) : ∀ p ∈ scan 0 source.toList, p.token? ≠ none := by
  obtain ⟨d, hspells, -⟩ := exists_derivation_of_evaluateWithin h
  intro p hp hstray
  have hmem : p.token? ∈ d.tokens.map some := hspells ▸ List.mem_map_of_mem hp
  simp [hstray] at hmem

/-- The characters of a source with a value are those of spaces and tokens. -/
theorem isLexical_of_evaluate {lib : Elementary} {source : String} {v : Float}
    (h : evaluate lib source = .ok v) : ∀ c ∈ source.toList, IsLexical c :=
  isLexical_of_scan (token?_ne_none_of_evaluate h)

/-! ### An expression for every character -/

/-- The characters that are tokens by themselves. -/
theorem isSome_ofMark?_iff {c : Char} :
    (Token.ofMark? c).isSome = true ↔ c ∈ ['+', '-', '*', '/', '^', '(', ')'] := by
  unfold Token.ofMark?
  split <;> simp_all

/-- The numeral that is written as a single digit. -/
def Numeral.ofDigit (c : Char) : Numeral := ⟨[c], none⟩

theorem Numeral.wellFormed_ofDigit {c : Char} (h : c.isDigit) : (ofDigit c).WellFormed :=
  .of_whole (List.forall_mem_singleton.mpr h) (List.cons_ne_nil c [])

/-- The derivation of an expression in which every mark occurs, over a primary. -/
def Derivation.withAllMarks (base : Derivation .primary) : Derivation .expression :=
  let term : Derivation .term := .chain .product (.plain base) (.done _)
  let group : Derivation .primary := .group (.chain .sum term (.done _))
  let quotient : Continuation .product :=
    .step .product .slash .divide rfl (.power base (.plain group)) (.done _)
  let product : Derivation .term :=
    .chain .product (.plain base) (.step .product .star .multiply rfl (.plain base) quotient)
  .chain .sum term (.step .sum .plus .add rfl term (.step .sum .minus .subtract rfl product
    (.done _)))

/-- There is an expression in which every mark occurs, and a point and a space as well. -/
theorem exists_evaluate_allMarks (lib : Elementary) :
    ∃ v, evaluate lib " .5+.5-.5*.5/.5^(.5)" = .ok v := by
  have hspells : Spells (pieces " .5+.5-.5*.5/.5^(.5)").toList
      (Derivation.withAllMarks (.number (Numeral.value ⟨[], some ['5']⟩))).tokens := by
    rw [Spells]
    decide +kernel
  refine ⟨_, evaluateWithin_of_derivation _ hspells ?_⟩
  rintro m ⟨⟩
  decide

/-- Every character of spaces and tokens occurs in a source with a value. -/
theorem exists_evaluate_of_isLexical (lib : Elementary) {c : Char} (h : IsLexical c) :
    ∃ source v, evaluate lib source = .ok v ∧ c ∈ source.toList := by
  by_cases hdigit : c.isDigit
  · refine ⟨_, _, evaluate_numeral lib (Numeral.wellFormed_ofDigit hdigit), ?_⟩
    rw [String.toList_ofList]
    exact List.mem_cons_self
  · obtain ⟨v, hv⟩ := exists_evaluate_allMarks lib
    refine ⟨_, v, hv, ?_⟩
    have hmarks : ∀ c ∈ [' ', '.', '+', '-', '*', '/', '^', '(', ')'],
        c ∈ " .5+.5-.5*.5/.5^(.5)".toList := by simp
    exact hmarks c (by simpa [IsLexical, hdigit, isSome_ofMark?_iff] using h)

/-- The characters that occur in sources with a value are those of spaces and tokens. -/
theorem isLexical_iff_exists_evaluate (lib : Elementary) {c : Char} :
    IsLexical c ↔ ∃ source v, evaluate lib source = .ok v ∧ c ∈ source.toList :=
  ⟨exists_evaluate_of_isLexical lib, fun ⟨_, _, hv, hc⟩ ↦ isLexical_of_evaluate hv c hc⟩

end DeskCalculator
