import DeskCalculator.Proofs.Grammar.Check
import DeskCalculator.Proofs.Grammar.Viable
import DeskCalculator.Proofs.Scan.Joined

/-!
# Groups of the same value can be exchanged

A group is a primary, as a number is. So in a derivation every number can be replaced by a primary
of the same value, which changes the tokens at this place and no value. In turn a primary among the
tokens of a sentence can be replaced by a number, because what is expected behind them is the same.
As a token sequence has only one derivation, two primaries of the same value can be exchanged for
each other, whatever surrounds them.

## Main results

* `Derivation.exists_replaced`: a number in a derivation, replaced by a primary.
* `Derivation.exists_exchanged`: two primaries, exchanged in a derivation.
* `check_parenthesised_cases`: the errors of a source with an expression between parentheses.
* `evaluate_exchange`: two sources of the same value, exchanged between parentheses.
-/

namespace DeskCalculator

/-- An element of a joined list is in the first part or in the second part of it. -/
theorem exists_of_append_eq_append_cons {α : Type} {xs ys us ws : List α} {a : α}
    (h : xs ++ ys = us ++ a :: ws) :
    (∃ vs, xs = us ++ a :: vs ∧ ws = vs ++ ys) ∨ ∃ vs, us = xs ++ vs ∧ ys = vs ++ a :: ws := by
  rcases List.append_eq_append_iff.mp h with ⟨vs, rfl, hys⟩ | ⟨vs, rfl, hws⟩
  · exact .inr ⟨vs, rfl, hys⟩
  · rcases List.cons_eq_append_iff.mp hws with ⟨rfl, hys⟩ | ⟨vs', rfl, rfl⟩
    · exact .inr ⟨[], by rw [List.append_nil, List.append_nil], hys⟩
    · exact .inl ⟨vs', rfl, rfl⟩

/-- An element that is not the first one of a list is in the rest of it. -/
theorem exists_of_cons_eq_append_cons {α : Type} {x a : α} {xs us ws : List α}
    (h : x :: xs = us ++ a :: ws) (hne : x ≠ a) : ∃ vs, us = x :: vs ∧ xs = vs ++ a :: ws := by
  rcases List.cons_eq_append_iff.mp h with ⟨-, hcons⟩ | ⟨vs, rfl, rfl⟩
  · exact absurd (List.head_eq_of_cons_eq hcons).symm hne
  · exact ⟨vs, rfl, rfl⟩

theorem Level.operator?_number (l : Level) (v : Float) : l.operator? (.number v) = none := by
  cases l <;> rfl

variable {lib : Elementary}

mutual

/-- A number in a derivation can be replaced by a primary of the same value. -/
theorem Derivation.exists_replaced {r : Rule} (d : Derivation r) (p : Derivation .primary)
    {us ws : List Token} (h : d.tokens = us ++ .number (p.value lib) :: ws) :
    ∃ d' : Derivation r, d'.tokens = us ++ (p.tokens ++ ws) ∧
      d'.value lib = d.value lib := by
  -- The tokens tell in which part of the derivation the number is, and that part is replaced.
  match r, d with
  | _, .number value =>
    rw [Derivation.tokens] at h
    rcases List.cons_eq_append_iff.mp h with ⟨rfl, hcons⟩ | ⟨vs, -, hnil⟩
    · obtain ⟨hvalue, rfl⟩ := List.cons.inj hcons
      obtain rfl := Token.number.inj hvalue
      exact ⟨p, (List.append_nil _).symm, rfl⟩
    · simp at hnil
  | _, .group inner =>
    rw [Derivation.tokens] at h
    obtain ⟨vs, rfl, hrest⟩ := exists_of_cons_eq_append_cons h nofun
    rcases exists_of_append_eq_append_cons hrest with ⟨vs', hinner, rfl⟩ | ⟨vs', rfl, hclose⟩
    · obtain ⟨inner', htokens, hvalue⟩ := inner.exists_replaced p hinner
      refine ⟨.group inner', ?_, hvalue⟩
      rw [Derivation.tokens, htokens]
      simp only [List.cons_append, List.append_assoc]
    · obtain ⟨_, -, hnil⟩ := exists_of_cons_eq_append_cons hclose nofun
      simp at hnil
  | _, .signed mark sign hm operand =>
    rw [Derivation.tokens] at h
    obtain ⟨vs, rfl, hrest⟩ := exists_of_cons_eq_append_cons h (by rintro rfl; cases hm)
    obtain ⟨operand', htokens, hvalue⟩ := operand.exists_replaced p hrest
    refine ⟨.signed mark sign hm operand', ?_, ?_⟩
    · rw [Derivation.tokens, htokens, List.cons_append]
    · rw [Derivation.value, Derivation.value, hvalue]
  | _, .plain base =>
    obtain ⟨base', htokens, hvalue⟩ := base.exists_replaced p h
    exact ⟨.plain base', htokens, hvalue⟩
  | _, .power base exponent =>
    rw [Derivation.tokens] at h
    rcases exists_of_append_eq_append_cons h with ⟨vs, hbase, rfl⟩ | ⟨vs, rfl, hrest⟩
    · obtain ⟨base', htokens, hvalue⟩ := base.exists_replaced p hbase
      refine ⟨.power base' exponent, ?_, ?_⟩
      · rw [Derivation.tokens, htokens]
        simp only [List.append_assoc]
      · rw [Derivation.value, Derivation.value, hvalue]
    · obtain ⟨vs', rfl, hexponent⟩ := exists_of_cons_eq_append_cons hrest nofun
      obtain ⟨exponent', htokens, hvalue⟩ := exponent.exists_replaced p hexponent
      refine ⟨.power base exponent', ?_, ?_⟩
      · rw [Derivation.tokens, htokens]
        simp only [List.append_assoc, List.cons_append]
      · rw [Derivation.value, Derivation.value, hvalue]
  | _, .chain l first more =>
    rw [Derivation.tokens] at h
    rcases exists_of_append_eq_append_cons h with ⟨vs, hfirst, rfl⟩ | ⟨vs, rfl, hmore⟩
    · obtain ⟨first', htokens, hvalue⟩ := first.exists_replaced p hfirst
      refine ⟨.chain l first' more, ?_, ?_⟩
      · rw [Derivation.tokens, htokens]
        simp only [List.append_assoc]
      · rw [Derivation.value, Derivation.value, hvalue]
    · obtain ⟨more', htokens, hvalue⟩ := more.exists_replaced p hmore
      refine ⟨.chain l first more', ?_, hvalue _⟩
      rw [Derivation.tokens, htokens, List.append_assoc]

/-- A number in the rest of a chain can be replaced by a primary of the same value. -/
theorem Continuation.exists_replaced {l : Level} (k : Continuation l) (p : Derivation .primary)
    {us ws : List Token} (h : k.tokens = us ++ .number (p.value lib) :: ws) :
    ∃ k' : Continuation l, k'.tokens = us ++ (p.tokens ++ ws) ∧
      ∀ left, k'.value lib left = k.value lib left := by
  match l, k with
  | _, .done _ => simp [Continuation.tokens] at h
  | l, .step _ mark op hop operand more =>
    rw [Continuation.tokens] at h
    obtain ⟨vs, rfl, hrest⟩ := exists_of_cons_eq_append_cons h fun hmark ↦ by
      rw [hmark, Level.operator?_number] at hop
      cases hop
    rcases exists_of_append_eq_append_cons hrest with ⟨vs', hoperand, rfl⟩ | ⟨vs', rfl, hmore⟩
    · obtain ⟨operand', htokens, hvalue⟩ := operand.exists_replaced p hoperand
      refine ⟨.step l mark op hop operand' more, ?_, fun left ↦ ?_⟩
      · rw [Continuation.tokens, htokens]
        simp only [List.cons_append, List.append_assoc]
      · rw [Continuation.value, Continuation.value, hvalue]
    · obtain ⟨more', htokens, hvalue⟩ := more.exists_replaced p hmore
      refine ⟨.step l mark op hop operand more', ?_, fun left ↦ hvalue _⟩
      rw [Continuation.tokens, htokens]
      simp only [List.cons_append, List.append_assoc]

end

/-- A primary takes an expectation to where a number takes it. -/
theorem Expectation.after_primary_append (p : Derivation .primary) (v : Float) (s : Expectation)
    (ws : List Token) : s.after (p.tokens ++ ws) = s.after (.number v :: ws) := by
  cases s with
  | operand k =>
    rw [after_append_of_eq (p.after_tokens k)]
    rfl
  | operator k => cases p <;> rfl

/-- In a derivation a primary can be exchanged for a primary of the same value. -/
theorem Derivation.exists_exchanged {d : Derivation .expression} {p q : Derivation .primary}
    {us ws : List Token} (hvalue : p.value lib = q.value lib)
    (h : d.tokens = us ++ (p.tokens ++ ws)) :
    ∃ d' : Derivation .expression, d'.tokens = us ++ (q.tokens ++ ws) ∧
      d'.value lib = d.value lib := by
  -- Both primaries stand for a number in a third derivation.
  have hafter := d.after_tokens 0
  rw [h, Expectation.after_append] at hafter
  simp only [Expectation.after_primary_append p (p.value lib)] at hafter
  rw [← Expectation.after_append] at hafter
  obtain ⟨d₀, hd₀⟩ := isSentence_of_after hafter
  obtain ⟨d₁, htokens₁, hvalue₁⟩ := d₀.exists_replaced p hd₀
  obtain ⟨d₂, htokens₂, hvalue₂⟩ := d₀.exists_replaced q (hvalue ▸ hd₀)
  obtain rfl := Derivation.eq_of_tokens_eq (htokens₁.trans h.symm)
  exact ⟨d₂, htokens₂, hvalue₂.trans hvalue₁.symm⟩

/-! ### Sources between parentheses -/

theorem spells_relocate_iff {f : Nat → Nat} {ps : List Piece} {ts : List Token} :
    Spells (ps.map (Piece.relocate f)) ts ↔ Spells ps ts := by
  rw [Spells, List.map_map]
  rfl

/-- An expression between parentheses is a group. -/
theorem spells_parenthesised {source : String} {d : Derivation .expression}
    (h : Spells (pieces source).toList d.tokens) (start : Nat) :
    Spells (parenthesised start source) (Derivation.group d).tokens := by
  refine spells_cons_iff.mpr ⟨_, _, rfl, rfl, spells_append_iff.mpr ⟨_, _, rfl, ?_, rfl⟩⟩
  exact spells_relocate_iff.mpr h

/-- A source between parentheses is a group among what stands around it. -/
theorem spells_pieces_parenthesised {before behind source : String} {us ws : List Token}
    {d : Derivation .expression} (hbefore : Spells (pieces before).toList us)
    (h : Spells (pieces source).toList d.tokens) (hbehind : Spells (pieces behind).toList ws) :
    Spells (pieces (before ++ "(" ++ source ++ ")" ++ behind)).toList
      (us ++ ((Derivation.group d).tokens ++ ws)) := by
  rw [pieces_parenthesised]
  exact spells_append_iff.mpr ⟨_, _, rfl, hbefore, spells_append_iff.mpr
    ⟨_, _, rfl, spells_parenthesised h _, spells_relocate_iff.mpr hbehind⟩⟩

section Parenthesised

variable {before behind source source' : String} {v x : Float}

/-- A value stays the same when a source between parentheses is exchanged for one of the same
value. -/
theorem evaluateWithin_none_exchange (h : evaluate lib source = .ok v)
    (h' : evaluate lib source' = .ok v)
    (hx : evaluateWithin none lib (before ++ "(" ++ source ++ ")" ++ behind) = .ok x) :
    evaluateWithin none lib (before ++ "(" ++ source' ++ ")" ++ behind) = .ok x := by
  obtain ⟨g, hg, -, rfl⟩ := exists_derivation_of_evaluateWithin h
  obtain ⟨g', hg', -, hvalue⟩ := exists_derivation_of_evaluateWithin h'
  obtain ⟨d, hd, -, rfl⟩ := exists_derivation_of_evaluateWithin hx
  rw [pieces_parenthesised] at hd
  obtain ⟨us, vs, htokens, hus, hvs⟩ := hd.split
  obtain ⟨ws, rfl, hws⟩ := (spells_parenthesised hg _).exists_append hvs
  obtain ⟨d', hd', hsame⟩ := Derivation.exists_exchanged (q := .group g') hvalue.symm htokens
  rw [evaluateWithin_eq_ok_iff]
  refine ⟨d', ?_, nofun, hsame⟩
  rw [hd']
  exact spells_pieces_parenthesised hus hg' (spells_relocate_iff.mp hws)

/-- Around an expression between parentheses a source has either an error of its own, which is found
at the parenthesis or before it, or what is found depends on the expression only by its length. -/
theorem check_parenthesised_cases (before behind : String) :
    (∃ e, e.position ≤ before.utf8ByteSize ∧ ∀ source (d : Derivation .expression),
      Spells (pieces source).toList d.tokens →
        check (before ++ "(" ++ source ++ ")" ++ behind) = .error e) ∨
    ∃ out : Except SyntaxError Unit, ∀ source (d : Derivation .expression),
      Spells (pieces source).toList d.tokens →
        check (before ++ "(" ++ source ++ ")" ++ behind) = out.mapError
          (SyntaxError.relocate (· + (before.utf8ByteSize + source.utf8ByteSize + 2))) := by
  rcases Expectation.check_append_cases (.operand 0) (pieces before).toList with
    ⟨e, ⟨p, hp, he⟩, herror⟩ | ⟨ts, s, hts, hs⟩
  · refine .inl ⟨e, ?_, fun source d _ ↦ ?_⟩
    · rw [he]
      exact Nat.le_of_lt ((inRow_pieces before).start_bounds p hp).2
    · rw [check, pieces_parenthesised, herror]
  · cases s with
    | operator k =>
      refine .inl ⟨(Expectation.operator k).refuse .leftParen before.utf8ByteSize, ?_,
        fun source d _ ↦ ?_⟩
      · rw [Expectation.position_refuse]
      · rw [check, pieces_parenthesised, Expectation.check_append_of_spells hts hs]
        rfl
    | operand k =>
      refine .inr ⟨(Expectation.operator k).check behind.utf8ByteSize (pieces behind).toList,
        fun source d hd ↦ ?_⟩
      have hextent : (before ++ "(" ++ source ++ ")" ++ behind).utf8ByteSize =
          behind.utf8ByteSize + (before.utf8ByteSize + source.utf8ByteSize + 2) := by
        have hopen : "(".utf8ByteSize = 1 := rfl
        have hclose : ")".utf8ByteSize = 1 := rfl
        simp only [String.utf8ByteSize_append]
        omega
      rw [check, pieces_parenthesised, hextent, Expectation.check_append_of_spells hts hs,
        Expectation.check_append_of_spells (spells_parenthesised hd _)
          ((Derivation.group d).after_tokens k), ← Expectation.check_relocate]

end Parenthesised

/-- **What stands between parentheses can be exchanged for anything of the same value.** If two
sources have the same value, then a source around the one has the value that it has around the
other. If it has none, its error is of the same kind around both, and is found at the same place if
that is not behind the opening parenthesis. Otherwise it is moved by the difference of the
lengths. Only the limit on the nesting can tell the two sources apart. -/
theorem evaluate_exchange (lib : Elementary) (before behind source source' : String) (v : Float)
    (h : evaluate lib source = .ok v) (h' : evaluate lib source' = .ok v)
    (hdeep : ∀ p, evaluate lib (before ++ "(" ++ source ++ ")" ++ behind) ≠ .error (.tooDeep p))
    (hdeep' : ∀ p, evaluate lib (before ++ "(" ++ source' ++ ")" ++ behind) ≠ .error (.tooDeep p)) :
    (∃ x, evaluate lib (before ++ "(" ++ source ++ ")" ++ behind) = .ok x ∧
      evaluate lib (before ++ "(" ++ source' ++ ")" ++ behind) = .ok x) ∨
    ∃ e e', evaluate lib (before ++ "(" ++ source ++ ")" ++ behind) = .error e ∧
      evaluate lib (before ++ "(" ++ source' ++ ")" ++ behind) = .error e' ∧
      e' = (e.relocate fun _ ↦ e'.position) ∧
      (e.position ≤ before.utf8ByteSize → e'.position = e.position) ∧
      (before.utf8ByteSize < e.position →
        e'.position + source.utf8ByteSize = e.position + source'.utf8ByteSize) := by
  rw [evaluate, evaluate, Descent.evaluateWithin_some_of_ne_tooDeep hdeep,
    Descent.evaluateWithin_some_of_ne_tooDeep hdeep']
  cases hout : evaluateWithin none lib (before ++ "(" ++ source ++ ")" ++ behind) with
  | ok x => exact .inl ⟨x, rfl, evaluateWithin_none_exchange h h' hout⟩
  | error e =>
    right
    obtain ⟨g, hg, -⟩ := exists_derivation_of_evaluateWithin h
    obtain ⟨g', hg', -⟩ := exists_derivation_of_evaluateWithin h'
    rw [evaluateWithin_none_eq_error_iff] at hout
    simp only [evaluateWithin_none_eq_error_iff]
    rcases check_parenthesised_cases before behind with ⟨e₀, hle, herror⟩ | ⟨out, hmoved⟩
    · obtain rfl := Except.error.inj ((herror source g hg).symm.trans hout)
      refine ⟨e₀, e₀, rfl, herror source' g' hg', ?_, fun _ ↦ rfl, fun hlt ↦ ?_⟩
      · cases e₀ <;> rfl
      · exact absurd hle (Nat.not_le.mpr hlt)
    · rw [hmoved source g hg] at hout
      cases out with
      | ok _ => cases hout
      | error e₀ =>
        obtain rfl := Except.error.inj hout
        refine ⟨_, _, rfl, hmoved source' g' hg', ?_, ?_, ?_⟩
        · cases e₀ <;> rfl
        all_goals rw [SyntaxError.position_relocate, SyntaxError.position_relocate]; omega

/-- In `3*(1+1)+` and in `3*(2)+` an operand is missing at the end. -/
theorem evaluate_exchange_sum :
    evaluate .machine "1+1" = .ok 2 ∧ evaluate .machine "2" = .ok 2 ∧
      evaluate .machine ("3*" ++ "(" ++ "1+1" ++ ")" ++ "+") = .error (.unexpectedEnd 8) ∧
      ∃ e, evaluate .machine ("3*" ++ "(" ++ "2" ++ ")" ++ "+") = .error e ∧
        e = .unexpectedEnd e.position ∧ e.position + 3 = 8 + 1 := by
  have h : evaluate .machine "1+1" = .ok 2 := by decide +kernel
  have h' : evaluate .machine "2" = .ok 2 := by decide +kernel
  have hout : evaluate .machine ("3*" ++ "(" ++ "1+1" ++ ")" ++ "+") =
      .error (.unexpectedEnd 8) := by decide +kernel
  have hout' : evaluate .machine ("3*" ++ "(" ++ "2" ++ ")" ++ "+") =
      .error (.unexpectedEnd 6) := by decide +kernel
  refine ⟨h, h', hout, ?_⟩
  rcases evaluate_exchange .machine "3*" "+" "1+1" "2" 2 h h' (by rw [hout]; exact nofun)
      (by rw [hout']; exact nofun) with ⟨x, hx, -⟩ | ⟨e, e', he, he', hkind, -, hmoved⟩
  · cases hout.symm.trans hx
  · obtain rfl := Except.error.inj (hout.symm.trans he)
    exact ⟨e', he', hkind, hmoved (by decide)⟩

end DeskCalculator
