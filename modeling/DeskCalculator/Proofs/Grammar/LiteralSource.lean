import DeskCalculator.Proofs.Grammar.Alphabet

/-!
# Sources that are literals

An input is read as a literal in another way than a source is evaluated. A literal may have an
exponent and a point with nothing behind it, which no expression has, and an expression may have
operators, groups and more signs than one, which no literal has. What both have in common is a
numeral with at most one sign directly before it, with spaces around both, and there both give the
same double.

## Main results

* `Literal.exists_of_read?`: the text of a literal.
* `exists_spacedNumeral`: what is read in both ways is a numeral with a sign and spaces.
* `evaluate_operandOf_overlap`: where both ways succeed, and that they agree there.
-/

namespace DeskCalculator

variable {lib : Elementary} {source : String} {text rest : List Char} {v w : Float}

/-! ### The text of a literal -/

namespace Literal

/-- A sign that is read stands before the rest. -/
theorem exists_readSign (text : List Char) : ∃ (sign? : Option Sign) (rest : List Char),
    readSign text = (sign?.getD .plus, rest) ∧ text = signMark sign? ++ rest := by
  unfold readSign
  split
  · exact ⟨some .plus, _, rfl, rfl⟩
  · exact ⟨some .minus, _, rfl, rfl⟩
  · exact ⟨none, _, rfl, rfl⟩

/-- A mantissa that is read stands before the rest. It is made of digits, of which there is one at
least, and perhaps a point. -/
theorem readMantissa?_eq_some {m : Numeral} (h : readMantissa? text = some (m, rest)) :
    m.text ++ rest = text ∧ m.HasDigits := by
  have hwhole : ∀ c ∈ text.takeWhile Char.isDigit, c.isDigit := fun c ↦ List.mem_takeWhile_imp
  have htext := List.takeWhile_append_dropWhile (p := Char.isDigit) (l := text)
  unfold readMantissa? at h
  simp only at h
  split at h
  · next more hpoint =>
    split at h
    · cases h
    · next hne =>
      obtain ⟨rfl, rfl⟩ := Prod.mk.inj (Option.some.inj h)
      refine ⟨?_, hwhole, fun c ↦ List.mem_takeWhile_imp, not_and_or.mp hne⟩
      rw [hpoint] at htext
      rw [Numeral.text, List.append_assoc, List.cons_append, List.takeWhile_append_dropWhile, htext]
  · split at h
    · cases h
    · next hne =>
      obtain ⟨rfl, rfl⟩ := Prod.mk.inj (Option.some.inj h)
      refine ⟨?_, hwhole, List.forall_mem_nil _, .inl hne⟩
      rw [Numeral.text, List.append_nil, htext]

/-- An exponent begins with its mark, unless there is none. -/
theorem mark_of_readExponent? {n : Int} (h : readExponent? text = some n) :
    ∀ c ∈ text.head?, c = 'e' ∨ c = 'E' := by
  unfold readExponent? at h
  split at h
  · simp
  · next c more =>
    simp only [Option.ite_none_right_eq_some] at h
    rintro c ⟨⟩
    exact h.1.1

/-- The text of a literal is a sign, if there is one, a mantissa and an exponent, if there is
one. -/
theorem exists_of_read? {l : Literal} (h : read? text = some l) :
    ∃ (sign? : Option Sign) (m : Numeral) (rest : List Char),
      text = signMark sign? ++ m.text ++ rest ∧ m.HasDigits ∧
      ∀ c ∈ rest.head?, c = 'e' ∨ c = 'E' := by
  obtain ⟨sign?, unsigned, hsign, rfl⟩ := exists_readSign text
  rw [read?, hsign] at h
  obtain ⟨⟨m, rest⟩, hmantissa, h⟩ := Option.bind_eq_some_iff.mp h
  obtain ⟨n, hexponent, -⟩ := Option.bind_eq_some_iff.mp h
  obtain ⟨htext, hdigits⟩ := readMantissa?_eq_some hmantissa
  refine ⟨sign?, m, rest, ?_, hdigits, mark_of_readExponent? hexponent⟩
  rw [List.append_assoc, htext]

end Literal

/-- A text is what is left without the spaces around it, and these spaces. -/
theorem exists_trimSpaces (text : List Char) : ∃ before after,
    text = List.replicate before ' ' ++ trimSpaces text ++ List.replicate after ' ' := by
  have hspaces (cs : List Char) : ∃ k, cs.takeWhile (· = ' ') = List.replicate k ' ' :=
    ⟨_, List.eq_replicate_of_mem fun c hc ↦ by simpa using List.mem_takeWhile_imp hc⟩
  obtain ⟨before, hbefore⟩ := hspaces text
  obtain ⟨after, hafter⟩ := hspaces (text.dropWhile (· = ' ')).reverse
  have hfront := List.takeWhile_append_dropWhile (p := (· = ' ')) (l := text)
  have hback := List.takeWhile_append_dropWhile (p := (· = ' '))
    (l := (text.dropWhile (· = ' ')).reverse)
  rw [hafter] at hback
  have hreverse := congrArg List.reverse hback
  rw [List.reverse_append, List.reverse_replicate, List.reverse_reverse] at hreverse
  refine ⟨before, after, ?_⟩
  rw [trimSpaces, List.append_assoc, hreverse, ← hbefore, hfront]

/-! ### Literals among expressions -/

/-- A point with nothing behind it is a stray character. -/
theorem exists_stray_of_point (sign? : Option Sign) {whole : List Char} (hne : whole ≠ [])
    (hdigits : ∀ c ∈ whole, c.isDigit) (before after start : Nat) :
    ∃ p ∈ scan start (List.replicate before ' ' ++ (signMark sign? ++ (whole ++ ['.'])) ++
      List.replicate after ' '), p.token? = none := by
  have hform : Numeral.WellFormed ⟨whole, none⟩ := .of_whole hdigits hne
  have hspaces : ¬ BeginsDigit (List.replicate after ' ') :=
    ((SpacedNumeral.endsNumeral_replicate after).stopsAt ⟨whole, none⟩).1
  have hstops : Numeral.StopsAt ⟨whole, none⟩ ('.' :: List.replicate after ' ') := by
    rw [Numeral.StopsAt, beginsDigit_cons_iff, beginsFraction_cons_iff]
    exact ⟨by decide, fun _ h ↦ hspaces h.2⟩
  have hstray : Token.read? ('.' :: List.replicate after ' ') = none := by
    rw [Token.read?, Numeral.read?_eq_none_iff.mpr ⟨hstops.1, hstops.2 rfl⟩]
    rfl
  obtain ⟨ps, start', -, hsign⟩ := exists_scan_signMark sign? (start + before)
    (whole ++ '.' :: List.replicate after ' ')
  obtain ⟨p, start'', -, hnumeral⟩ := exists_scan_numeral hform hstops start'
  have htext : Numeral.text ⟨whole, none⟩ = whole := by rw [Numeral.text, List.append_nil]
  rw [htext] at hnumeral
  refine ⟨⟨none, ".", start''⟩, ?_, rfl⟩
  rw [List.append_assoc, scan_replicate_append, List.append_assoc, List.append_assoc,
    List.singleton_append, hsign, hnumeral, scan_piece start'' _ (by decide), Piece.first, hstray]
  simp

/-- What has a value as a source and as an input is a numeral with at most one sign, and spaces. -/
theorem exists_spacedNumeral (hv : evaluate lib source = .ok v) (hw : operandOf source = .ok w) :
    ∃ s : SpacedNumeral, s.numeral.WellFormed ∧ s.text = source.toList := by
  obtain ⟨before, after, hspaces⟩ := exists_trimSpaces source.toList
  rw [operandOf] at hw
  cases hread : Literal.read? (trimSpaces source.toList) with
  | none => simp [hread] at hw
  | some l =>
    obtain ⟨sign?, m, rest, htext, ⟨hwhole, hfraction, hne⟩, hmark⟩ :=
      Literal.exists_of_read? hread
    rw [htext] at hspaces
    have hrest : rest = [] := by
      cases rest with
      | nil => rfl
      | cons c more =>
        have hlexical := isLexical_of_evaluate hv c (by simp [hspaces])
        rcases hmark c rfl with rfl | rfl <;> simp [IsLexical, Token.ofMark?] at hlexical
    rw [hrest, List.append_nil] at hspaces
    have hpoint : m.fraction? ≠ some [] := by
      intro hnil
      have hwhole_ne : m.whole ≠ [] := by simpa [Numeral.fraction, hnil] using hne
      have htext' : m.text = m.whole ++ ['.'] := by rw [Numeral.text, hnil]
      obtain ⟨p, hp, hstray⟩ := exists_stray_of_point sign? hwhole_ne hwhole before after 0
      rw [← htext', ← hspaces] at hp
      exact token?_ne_none_of_evaluate hv p hp hstray
    refine ⟨⟨before, sign?, m, after⟩, ⟨hwhole, hfraction, hpoint, fun hnone ↦ ?_⟩, hspaces.symm⟩
    have hnil : m.fraction = [] := by rw [Numeral.fraction, hnone, Option.getD_none]
    exact hne.resolve_right (not_not.mpr hnil)

/-- **Sources and literals overlap in signed numerals, and agree there.** A source has a value both
as an expression and as an input exactly if it is a numeral with at most one sign directly before
it, with spaces around both. Then the two values are the same. -/
theorem evaluate_operandOf_overlap (lib : Elementary) (source : String) :
    ((∃ v, evaluate lib source = .ok v) ∧ (∃ w, operandOf source = .ok w) ↔
      ∃ s : SpacedNumeral, s.numeral.WellFormed ∧ s.text = source.toList) ∧
    ∀ v w, evaluate lib source = .ok v → operandOf source = .ok w → v = w := by
  have hvalues (s : SpacedNumeral) (h : s.numeral.WellFormed) (htext : s.text = source.toList) :
      evaluate lib source = .ok s.value ∧ operandOf source = .ok s.value := by
    have hsource : source = String.ofList s.text := by rw [htext, String.ofList_toList]
    rw [hsource]
    exact ⟨SpacedNumeral.evaluate_text lib h, SpacedNumeral.operandOf_text h⟩
  refine ⟨⟨fun ⟨⟨v, hv⟩, w, hw⟩ ↦ exists_spacedNumeral hv hw, fun ⟨s, h, htext⟩ ↦ ?_⟩,
    fun v w hv hw ↦ ?_⟩
  · obtain ⟨hevaluate, hoperand⟩ := hvalues s h htext
    exact ⟨⟨_, hevaluate⟩, _, hoperand⟩
  · obtain ⟨s, h, htext⟩ := exists_spacedNumeral hv hw
    obtain ⟨hevaluate, hoperand⟩ := hvalues s h htext
    rw [hv] at hevaluate
    rw [hw] at hoperand
    exact (Except.ok.inj hevaluate).trans (Except.ok.inj hoperand).symm

/-- A zero behind a minus is negative in either way. -/
theorem evaluate_operandOf_overlap_zero :
    ∃ v w, evaluate .machine "  -.0 " = .ok v ∧ operandOf "  -.0 " = .ok w ∧ v = w ∧
      v = Float.ofBits 0x8000000000000000 := by
  have hv : evaluate .machine "  -.0 " = .ok (Float.ofBits 0x8000000000000000) := by decide +kernel
  have hw : operandOf "  -.0 " = .ok (Float.ofBits 0x8000000000000000) := by decide +kernel
  exact ⟨_, _, hv, hw, (evaluate_operandOf_overlap .machine "  -.0 ").2 _ _ hv hw, rfl⟩

end DeskCalculator
