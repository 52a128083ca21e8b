import DeskCalculator.Proofs.Grammar.NumeralSource
import DeskCalculator.Proofs.Scan.Lossless

/-!
# Tokens that are printed and scanned again

A token keeps the value of a numeral and not its spelling, and it is printed by the shortest text of
that value. The tokens of a source that are printed with a space between each two are the tokens of
what is printed, as long as their numbers are finite. So both are evaluated alike, and an error
names the same token, since nothing but the tokens and their places counts.

## Main definitions

* `printed`: tokens printed again, with spaces between them.
* `Token.IsReadable`: the tokens that are read back from their text.

## Main results

* `exists_numeral_plainText`: the plain text of a number without a sign is a numeral of it.
* `spells_printed`: printed tokens are scanned as these tokens.
* `exists_relocate_of_spells`: sources of the same tokens are evaluated alike.
* `printed_spells_evaluate`: printing and scanning gives the tokens back, and the evaluation.
-/

namespace DeskCalculator

/-- Tokens printed again, with a space between each two. -/
def printed (ts : List Token) : String := " ".intercalate (ts.map Token.text)

/-- A token that is read back from its text: a mark, or a finite number without a sign. -/
def Token.IsReadable : Token → Prop
  | .number v => v.isFinite = true ∧ isNegative v = false
  | .plus | .minus | .star | .slash | .caret | .leftParen | .rightParen => True

/-! ### Printed tokens -/

/-- The plain text of a finite number without a sign is a numeral of this number. -/
theorem exists_numeral_plainText {v : Float} (h : v.isFinite) (hsign : isNegative v = false) :
    ∃ n : Numeral, n.WellFormed ∧ n.value = v ∧ plainText v = String.ofList n.text := by
  have hlt := Magnitude.ofFloat_lt_infinite h
  refine ⟨_, (Decimal.shortest (Magnitude.ofFloat v)).wellFormed_numeral, ?_, ?_⟩
  · rw [Decimal.value_numeral, Decimal.toFloat, Decimal.magnitude_shortest_eq hlt,
      Magnitude.toFloat_ofFloat h hsign]
  · rw [plainText, isNaN_of_isFinite h, isInf_of_isFinite h, if_neg Bool.false_ne_true,
      if_neg Bool.false_ne_true, signText_eq_nil hsign, Decimal.text_numeral, List.nil_append]

/-- The first piece of a text that begins with a printed token is the token, unless digits or a
point follow. -/
theorem exists_scan_text {t : Token} (h : t.IsReadable) {rest : List Char}
    (hrest : EndsNumeral rest) (start : Nat) :
    ∃ p start', p.token? = some t ∧
      scan start (t.text.toList ++ rest) = p :: scan start' rest := by
  have hmark {c : Char} (hc : Token.ofMark? c = some t) (htext : t.text.toList = [c]) :
      ∃ p start', p.token? = some t ∧
        scan start (t.text.toList ++ rest) = p :: scan start' rest := by
    have hsolitary : IsSolitary c := isSolitary_of_ofMark? (Option.isSome_of_eq_some hc)
    rw [htext, List.singleton_append, scan_solitary hsolitary, hc]
    exact ⟨_, _, rfl, rfl⟩
  cases t with
  | number v =>
    obtain ⟨n, hform, rfl, htext⟩ := exists_numeral_plainText h.1 h.2
    rw [Token.text, htext, String.toList_ofList]
    exact exists_scan_numeral hform (hrest.stopsAt n) start
  | plus => exact hmark (c := '+') rfl rfl
  | minus => exact hmark (c := '-') rfl rfl
  | star => exact hmark (c := '*') rfl rfl
  | slash => exact hmark (c := '/') rfl rfl
  | caret => exact hmark (c := '^') rfl rfl
  | leftParen => exact hmark (c := '(') rfl rfl
  | rightParen => exact hmark (c := ')') rfl rfl

/-- Printed tokens with spaces between them are scanned as these tokens. -/
theorem spells_scan_intercalate {ts : List Token} (h : ∀ t ∈ ts, t.IsReadable) (start : Nat) :
    Spells (scan start ([' '].intercalate (ts.map (·.text.toList)))) ts := by
  induction ts generalizing start with
  | nil => exact spells_nil_iff.mpr (scan_nil start)
  | cons t ts ih =>
    rw [List.forall_mem_cons] at h
    cases ts with
    | nil =>
      obtain ⟨p, start', hp, hscan⟩ := exists_scan_text h.1 endsNumeral_nil start
      rw [List.append_nil, scan_nil] at hscan
      rw [List.map_singleton, List.intercalate_singleton, hscan]
      exact spells_cons_iff.mpr ⟨p, [], rfl, hp, rfl⟩
    | cons u us =>
      have hspace (cs : List Char) : EndsNumeral (' ' :: cs) := by simp [EndsNumeral]
      obtain ⟨p, start', hp, hscan⟩ := exists_scan_text h.1
        (hspace ([' '].intercalate ((u :: us).map (·.text.toList)))) start
      rw [scan_space, List.map_cons] at hscan
      rw [List.map_cons, List.map_cons, List.intercalate_cons_cons, List.append_assoc,
        List.singleton_append, hscan]
      exact spells_cons_iff.mpr ⟨p, _, rfl, hp, ih h.2 _⟩

/-- Printed tokens are scanned as these tokens. -/
theorem spells_printed {ts : List Token} (h : ∀ t ∈ ts, t.IsReadable) :
    Spells (pieces (printed ts)).toList ts := by
  rw [toList_pieces, printed, String.toList_intercalate, List.map_map]
  exact spells_scan_intercalate h 0

/-- Every token of pieces is that of one of them. -/
theorem Spells.exists_mem {ps : List Piece} {ts : List Token} (h : Spells ps ts) {t : Token}
    (ht : t ∈ ts) : ∃ p ∈ ps, p.token? = some t := by
  have hmem : some t ∈ ps.map Piece.token? := h ▸ List.mem_map_of_mem ht
  exact List.mem_map.mp hmem

/-- The number of a piece has no sign. -/
theorem isNegative_of_mem_pieces {source : String} {p : Piece} {v : Float}
    (hp : p ∈ (pieces source).toList) (h : p.token? = some (.number v)) : isNegative v = false := by
  obtain ⟨before, rest, -, -, hlongest⟩ := (split_scan 0 source.toList).exists_isLongestAt p hp
  have hlexeme : ∃ cs, IsLexeme cs ∧ cs <+: p.spelling.toList ++ rest := by
    by_contra hnone
    cases h.symm.trans (hlongest.stray hnone).1
  obtain ⟨t, ht, htoken, -⟩ := hlongest.lexeme hlexeme
  obtain rfl := Option.some.inj (ht.symm.trans h)
  generalize p.spelling.toList = cs at htoken
  cases htoken with
  | number hcs hv =>
    obtain ⟨l, hl, -, hsign⟩ := hcs.exists_literal
    rw [hl] at hv
    rwa [← Option.some.inj hv]
  | mark hmark => cases hmark

/-! ### Sources of the same tokens -/

theorem forall₂_corresponds_congr {f g : Nat → Nat} {ps ps' : List Piece}
    (h : List.Forall₂ (Piece.Corresponds f) ps ps') (hg : ∀ p ∈ ps, g p.start = f p.start) :
    List.Forall₂ (Piece.Corresponds g) ps ps' := by
  induction h with
  | nil => exact .nil
  | cons hp _ ih =>
    rw [List.forall_mem_cons] at hg
    exact .cons ⟨hp.token?_eq, hp.start_eq.trans hg.1.symm, hp.spelling_eq⟩ (ih hg.2)

/-- Pieces of the same tokens correspond to each other, for a suitable move of their bytes. -/
theorem Spells.exists_corresponds {ts : List Token} {ps ps' : List Piece} {start stop : Nat}
    (h : Spells ps ts) (h' : Spells ps' ts) (hrow : InRow start ps stop) (stop' : Nat) :
    ∃ f, List.Forall₂ (Piece.Corresponds f) ps ps' ∧ f stop = stop' := by
  induction ts generalizing ps ps' start with
  | nil =>
    obtain rfl := spells_nil_iff.mp h
    obtain rfl := spells_nil_iff.mp h'
    exact ⟨fun _ ↦ stop', .nil, rfl⟩
  | cons t ts ih =>
    obtain ⟨p, qs, rfl, hp, hqs⟩ := spells_cons_iff.mp h
    obtain ⟨p', qs', rfl, hp', hqs'⟩ := spells_cons_iff.mp h'
    obtain ⟨-, hlt, hrest⟩ := hrow
    obtain ⟨f, hf, hstop⟩ := ih hqs hqs' hrest
    -- The pieces behind the first one start behind it, so its start can be moved by itself.
    have hne : ∀ b, p.stop ≤ b → Function.update f p.start p'.start b = f b := fun b hb ↦
      Function.update_of_ne (by omega) _ _
    refine ⟨Function.update f p.start p'.start, .cons ⟨hp'.trans hp.symm, ?_, ?_⟩ ?_, ?_⟩
    · rw [Function.update_self]
    · intro hnone
      cases hp.symm.trans hnone
    · exact forall₂_corresponds_congr hf fun q hq ↦ hne _ (hrest.start_bounds q hq).1
    · rw [hne stop hrest.le, hstop]

/-- Sources of the same tokens are evaluated alike, but for the byte at which an error is found. -/
theorem exists_relocate_of_spells {source source' : String} {ts : List Token}
    (h : Spells (pieces source).toList ts) (h' : Spells (pieces source').toList ts) :
    ∃ f, ∀ (lib : Elementary) (limit? : Option Nat), evaluateWithin limit? lib source' =
      (evaluateWithin limit? lib source).mapError (SyntaxError.relocate f) := by
  obtain ⟨f, hpieces, hextent⟩ := h.exists_corresponds h' (inRow_pieces source) source'.utf8ByteSize
  exact ⟨f, fun lib limit? ↦ evaluateWithin_of_corresponds lib limit? hpieces hextent.symm⟩

/-- **Printed tokens are scanned as themselves.** The tokens of a source that is all tokens, with
finite numbers, are printed with single spaces between them. What is printed has the same tokens,
the same doubles included. So it has a value exactly if the source has, which is the same, and
otherwise an error of the same kind that names the same token. -/
theorem printed_spells_evaluate (lib : Elementary) {source : String} {ts : List Token}
    (h : Spells (pieces source).toList ts)
    (hfinite : ∀ v, Token.number v ∈ ts → v.isFinite = true) :
    Spells (pieces (printed ts)).toList ts ∧
      (∀ v, evaluate lib (printed ts) = .ok v ↔ evaluate lib source = .ok v) ∧
      ∀ e, evaluate lib source = .error e →
        ∃ position, evaluate lib (printed ts) = .error (e.relocate fun _ ↦ position) := by
  have hreadable : ∀ t ∈ ts, t.IsReadable := by
    intro t ht
    cases t with
    | number v =>
      obtain ⟨p, hp, hv⟩ := h.exists_mem ht
      exact ⟨hfinite v ht, isNegative_of_mem_pieces hp hv⟩
    | _ => trivial
  have hprinted := spells_printed hreadable
  obtain ⟨f, hf⟩ := exists_relocate_of_spells h hprinted
  have hevaluate : evaluate lib (printed ts) =
      (evaluate lib source).mapError (SyntaxError.relocate f) := hf lib _
  refine ⟨hprinted, fun v ↦ ?_, fun e he ↦ ⟨f e.position, ?_⟩⟩
  · rw [hevaluate]
    cases evaluate lib source <;> simp [Except.mapError]
  · rw [hevaluate, he, ← SyntaxError.relocate_eq]
    rfl

/-- Zeros in front of a number and behind it are not printed, and the error behind them is the
same. -/
theorem printed_spells_evaluate_zeros :
    Spells (pieces "007-.50)").toList [.number (Float.ofBits 0x401C000000000000), .minus,
        .number (Float.ofBits 0x3FE0000000000000), .rightParen] ∧
      evaluate .machine "007-.50)" = .error (.trailingToken ")" 7) ∧
      Spells (pieces "7 - 0.5 )").toList [.number (Float.ofBits 0x401C000000000000), .minus,
        .number (Float.ofBits 0x3FE0000000000000), .rightParen] ∧
      ∃ position, evaluate .machine "7 - 0.5 )" = .error (.trailingToken ")" position) := by
  have hspells : Spells (pieces "007-.50)").toList [.number (Float.ofBits 0x401C000000000000),
      .minus, .number (Float.ofBits 0x3FE0000000000000), .rightParen] := by
    rw [Spells]
    decide +kernel
  have hfinite : ∀ v, Token.number v ∈ [.number (Float.ofBits 0x401C000000000000), .minus,
      .number (Float.ofBits 0x3FE0000000000000), .rightParen] → v.isFinite = true := by
    intro v hv
    simp only [List.mem_cons, List.not_mem_nil, or_false, Token.number.injEq, reduceCtorEq,
      false_or] at hv
    rcases hv with rfl | rfl <;> decide +kernel
  have hprinted : printed [.number (Float.ofBits 0x401C000000000000), .minus,
      .number (Float.ofBits 0x3FE0000000000000), .rightParen] = "7 - 0.5 )" := by decide +kernel
  have herror : evaluate .machine "007-.50)" = .error (.trailingToken ")" 7) := by decide +kernel
  obtain ⟨hback, -, herrors⟩ := printed_spells_evaluate .machine hspells hfinite
  rw [hprinted] at hback herrors
  exact ⟨hspells, herror, hback, herrors _ herror⟩

end DeskCalculator
