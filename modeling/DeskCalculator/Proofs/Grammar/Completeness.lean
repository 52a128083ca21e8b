import DeskCalculator.Proofs.Descent.Ahead
import DeskCalculator.Proofs.Grammar.Unambiguous

/-!
# Derivations give runs that succeed

In front of pieces that spell a derivation, the run of its rule succeeds with the value of the
derivation, reads these pieces and stops behind them. Two things are needed for it. What follows the
pieces must be no stray character, which would make the last step fail, and no token that the rule
owns, which would make the run go on. And the derivation must not be nested deeper than the levels
that are free.

## Main definitions

* `Rule.StopsBefore`: pieces before which a run of a rule stops.

## Main results

* `Descent.exists_run_derivation`: the run in front of a derivation.
-/

namespace DeskCalculator

/-- The end of the source, or a token that the rule does not own. -/
def Rule.StopsBefore (r : Rule) (ps : List Piece) : Prop :=
  ∀ p ∈ ps.head?, ∃ t, p.token? = some t ∧ r.owns t = false

namespace Descent

theorem stopsBefore_nil (r : Rule) : r.StopsBefore [] := by simp [Rule.StopsBefore]

theorem stopsBefore_cons {r : Rule} {p : Piece} {ps : List Piece} {t : Token}
    (hp : p.token? = some t) (ht : r.owns t = false) : r.StopsBefore (p :: ps) := by
  intro q hq
  obtain rfl : p = q := by simpa using hq
  exact ⟨t, hp, ht⟩

/-- Before pieces that spell tokens a rule stops if it stops before the tokens. -/
theorem stopsBefore_append {r : Rule} {ps rest : List Piece} {ts : List Token} (h : Spells ps ts)
    (hts : r.Stops ts) (hrest : ts = [] → r.StopsBefore rest) : r.StopsBefore (ps ++ rest) := by
  cases ts with
  | nil =>
    obtain rfl := spells_nil_iff.mp h
    exact hrest rfl
  | cons t ts =>
    obtain ⟨p, qs, rfl, hp, -⟩ := spells_cons_iff.mp h
    exact stopsBefore_cons hp (Rule.stops_cons.mp hts)

theorem stopsBefore_mono {r r' : Rule} {ps : List Piece} (h : r.StopsBefore ps)
    (howns : ∀ t, r.owns t = false → r'.owns t = false) : r'.StopsBefore ps := by
  intro p hp
  obtain ⟨t, ht, ht'⟩ := h p hp
  exact ⟨t, ht, howns t ht'⟩

theorem stopsBefore_operand {l : Level} {ps : List Piece} (h : (Rule.chain l).StopsBefore ps) :
    l.operand.StopsBefore ps := by
  refine stopsBefore_mono h fun t ht ↦ ?_
  rw [Rule.owns_chain, Bool.or_eq_false_iff] at ht
  exact ht.1

/-- An operand stops before the operators of its chain, and behind the last one if it stops before
the rest. -/
theorem stopsBefore_operators {l : Level} (k : Continuation l) {ps rest : List Piece}
    (hs : Spells ps k.tokens) (hrest : k.tokens = [] → l.operand.StopsBefore rest) :
    l.operand.StopsBefore (ps ++ rest) := by
  refine stopsBefore_append hs ?_ hrest
  have hstops := k.stops_operand (Rule.stops_nil _)
  rwa [List.append_nil] at hstops

/-- Between an operand and what follows it in a chain, the operand stops. -/
theorem stopsBefore_continuation {l : Level} (k : Continuation l) {ps rest : List Piece}
    (hs : Spells ps k.tokens) (hrest : (Rule.chain l).StopsBefore rest) :
    l.operand.StopsBefore (ps ++ rest) :=
  stopsBefore_operators k hs fun _ ↦ stopsBefore_operand hrest

variable {lib : Elementary} {limit? : Option Nat} {c : Cursor} {ps rest : List Piece}

/-- What a cursor looks at, when a rule stops before the pieces ahead. -/
theorem owns_peek {r : Rule} (hc : c.InStep) (ha : c.ahead = rest) (hrest : r.StopsBefore rest)
    {t : Token} (ht : c.peek = some t) : r.owns t = false := by
  obtain ⟨p, qs, hahead, hp, -⟩ := hc.ahead_of_peek ht
  obtain ⟨s, hs, howns⟩ := hrest p (by rw [← ha, hahead]; rfl)
  obtain rfl := Option.some.inj (hp.symm.trans hs)
  exact howns

/-- The step over the first of the tokens that are ahead. -/
theorem exists_step {t : Token} {ts : List Token} {r : Rule} (hc : c.InStep)
    (ha : c.ahead = ps ++ rest) (hs : Spells ps (t :: ts)) (hrest : r.StopsBefore rest) :
    ∃ qs d, Spells qs ts ∧ c.peek = some t ∧ c.advance = .ok () d ∧ d.InStep ∧
      d.ahead = qs ++ rest ∧ d.openLevels = c.openLevels := by
  obtain ⟨p, qs, rfl, hp, hqs⟩ := spells_cons_iff.mp hs
  have hnext : ∀ q ∈ (qs ++ rest).head?, q.token? ≠ none := by
    cases ts with
    | nil =>
      rw [spells_nil_iff.mp hqs, List.nil_append]
      intro q hq
      obtain ⟨u, hu, -⟩ := hrest q hq
      simp [hu]
    | cons u ts =>
      obtain ⟨q, qs, rfl, hq, -⟩ := spells_cons_iff.mp hqs
      simp [hq]
  have hpeek : c.peek = some t := by rw [hc.peek_eq, ha]; exact hp
  obtain ⟨d, hd⟩ := Cursor.exists_advance_ok (c := c) (by rwa [hc.rest_eq ha])
  obtain ⟨hstep, hahead⟩ := hc.of_advance_ok ha hd
  exact ⟨qs, d, hqs, hpeek, hd, hstep, hahead, Cursor.openLevels_of_advance_ok hd⟩

/-- In front of a primary there is no sign. -/
theorem unsigned_of_spells (base : Derivation .primary) (hc : c.InStep)
    (ha : c.ahead = ps ++ rest) (hs : Spells ps base.tokens) : c.peek.bind Token.sign? = none := by
  cases htokens : base.tokens with
  | nil => exact absurd htokens base.tokens_ne_nil
  | cons t ts =>
    rw [htokens] at hs
    obtain ⟨p, qs, rfl, hp, -⟩ := spells_cons_iff.mp hs
    have hpeek : c.peek = some t := by rw [hc.peek_eq, ha]; exact hp
    rw [hpeek, Option.bind_some]
    have happend : base.tokens ++ [] = t :: ts := by rw [htokens, List.append_nil]
    exact base.sign?_eq_none happend

/-- Below the limit a factor is not refused. -/
theorem not_refused {n k : Nat} (hn : ∀ m ∈ limit?, n + 1 ≤ m - k) :
    limit?.any (· ≤ k) = false := by
  cases limit? with
  | none => rfl
  | some m =>
    have hle := hn m rfl
    have hlt : ¬ m ≤ k := by omega
    simpa using hlt

mutual

/-- In front of pieces that spell a derivation, its rule succeeds with the value of the derivation
and stops behind these pieces. -/
theorem exists_run_derivation {r : Rule} (der : Derivation r) {c : Cursor} {ps rest : List Piece}
    (hc : c.InStep) (ha : c.ahead = ps ++ rest) (hs : Spells ps der.tokens)
    (hrest : r.StopsBefore rest) (hn : ∀ m ∈ limit?, der.nesting ≤ m - c.openLevels) :
    ∃ es d, Run lib limit? (.rule r) c es (.ok (der.value lib) d) ∧ d.InStep ∧ d.ahead = rest := by
  match der with
  | .number value =>
    rw [Derivation.tokens] at hs
    obtain ⟨qs, d, hqs, hpeek, hd, hstep, hahead, -⟩ := exists_step hc ha hs hrest
    rw [spells_nil_iff.mp hqs] at hahead
    exact ⟨_, d, .number hpeek hd, hstep, hahead⟩
  | .group inner =>
    rw [Derivation.tokens] at hs
    obtain ⟨qs, d, hqs, hpeek, hd, hstep, hahead, hlevels⟩ := exists_step hc ha hs hrest
    obtain ⟨us, vs, rfl, hus, hvs⟩ := spells_append_iff.mp hqs
    rw [List.append_assoc] at hahead
    have hinner : Rule.expression.StopsBefore (vs ++ rest) :=
      stopsBefore_append hvs (Rule.stops_rightParen _ _) (by simp)
    obtain ⟨es, d', hrun, hstep', hahead'⟩ := exists_run_derivation inner hstep hahead hus hinner
      (by rwa [hlevels, ← Derivation.nesting])
    obtain ⟨ws, d'', hws, hpeek', hd', hstep'', hahead'', -⟩ := exists_step hstep' hahead' hvs hrest
    rw [spells_nil_iff.mp hws] at hahead''
    exact ⟨_, d'', .group hpeek hd hrun hpeek' hd', hstep'', hahead''⟩
  | .signed mark sign hm operand =>
    rw [Derivation.tokens] at hs
    rw [Derivation.nesting] at hn
    obtain ⟨qs, d, hqs, hpeek, hd, hstep, hahead, hlevels⟩ :=
      exists_step hc.of_openLevel ha hs hrest
    obtain ⟨es, d', hrun, hstep', hahead'⟩ := exists_run_derivation operand hstep hahead hqs hrest
      (fun m hlim ↦ by have := hn m hlim; rw [hlevels, openLevels_openLevel]; omega)
    exact ⟨_, _, (hrun.signed hpeek hm hd).factor (not_refused hn), hstep'.of_leave, hahead'⟩
  | .plain base =>
    rw [Derivation.tokens] at hs
    rw [Derivation.nesting] at hn
    obtain ⟨es, d, hrun, hstep, hahead⟩ := exists_run_derivation base hc.of_openLevel ha hs
      (stopsBefore_mono hrest fun _ _ ↦ rfl)
      (fun m hlim ↦ by have := hn m hlim; rw [openLevels_openLevel]; omega)
    have hexponent : d.peek ≠ some .caret := fun hpeek ↦
      absurd (owns_peek hstep hahead hrest hpeek) (by simp [Rule.owns])
    have hsign := unsigned_of_spells base hc.of_openLevel ha hs
    exact ⟨_, _, (Run.unsigned hsign hrun (.unraised hexponent)).factor (not_refused hn),
      hstep.of_leave, hahead⟩
  | .power base exponent =>
    rw [Derivation.tokens] at hs
    rw [Derivation.nesting] at hn
    obtain ⟨us, vs, rfl, hus, hvs⟩ := spells_append_iff.mp hs
    rw [List.append_assoc] at ha
    obtain ⟨es, d, hrun, hstep, hahead⟩ := exists_run_derivation base hc.of_openLevel ha hus
      (stopsBefore_append hvs (Rule.stops_primary _) (by simp))
      (fun m hlim ↦ by have := hn m hlim; rw [openLevels_openLevel]; omega)
    obtain ⟨qs, d', hqs, hpeek, hd, hstep', hahead', hlevels⟩ := exists_step hstep hahead hvs hrest
    obtain ⟨es', d'', hrun', hstep'', hahead''⟩ :=
      exists_run_derivation exponent hstep' hahead' hqs hrest (fun m hlim ↦ by
        have := hn m hlim
        rw [hlevels, hrun.openLevels_of_ok, openLevels_openLevel]
        omega)
    have hsign := unsigned_of_spells base hc.of_openLevel ha hus
    exact ⟨_, _, (Run.unsigned hsign hrun (hrun'.raised hpeek hd)).factor (not_refused hn),
      hstep''.of_leave, hahead''⟩
  | .chain l first more =>
    rw [Derivation.tokens] at hs
    rw [Derivation.nesting] at hn
    obtain ⟨us, vs, rfl, hus, hvs⟩ := spells_append_iff.mp hs
    rw [List.append_assoc] at ha
    obtain ⟨es, d, hrun, hstep, hahead⟩ := exists_run_derivation first hc ha hus
      (stopsBefore_continuation more hvs hrest) (fun m hlim ↦ by have := hn m hlim; omega)
    obtain ⟨es', d', hrun', hstep', hahead'⟩ :=
      exists_run_continuation more (first.value lib) hstep hahead hvs hrest
        (fun m hlim ↦ by have := hn m hlim; rw [hrun.openLevels_of_ok]; omega)
    exact ⟨_, d', .chain hrun hrun', hstep', hahead'⟩

/-- In front of pieces that spell the rest of a chain, all of its operators are applied. -/
theorem exists_run_continuation {l : Level} (k : Continuation l) (left : Float) {c : Cursor}
    {ps rest : List Piece} (hc : c.InStep) (ha : c.ahead = ps ++ rest) (hs : Spells ps k.tokens)
    (hrest : (Rule.chain l).StopsBefore rest) (hn : ∀ m ∈ limit?, k.nesting ≤ m - c.openLevels) :
    ∃ es d, Run lib limit? (.more l left) c es (.ok (k.value lib left) d) ∧ d.InStep ∧
      d.ahead = rest := by
  match k with
  | .done _ =>
    rw [Continuation.tokens, spells_nil_iff] at hs
    rw [hs, List.nil_append] at ha
    have hstop : c.peek.bind l.operator? = none := by
      cases hpeek : c.peek with
      | none => rfl
      | some t =>
        have howns := owns_peek hc ha hrest hpeek
        rw [Rule.owns_chain, Bool.or_eq_false_iff] at howns
        simpa using howns.2
    exact ⟨_, c, .finished hstop, hc, ha⟩
  | .step _ mark op hop operand more =>
    rw [Continuation.tokens] at hs
    rw [Continuation.nesting] at hn
    obtain ⟨qs, d, hqs, hpeek, hd, hstep, hahead, hlevels⟩ := exists_step hc ha hs hrest
    obtain ⟨us, vs, rfl, hus, hvs⟩ := spells_append_iff.mp hqs
    rw [List.append_assoc] at hahead
    obtain ⟨es, d', hrun, hstep', hahead'⟩ := exists_run_derivation operand hstep hahead hus
      (stopsBefore_continuation more hvs hrest)
      (fun m hlim ↦ by have := hn m hlim; rw [hlevels]; omega)
    obtain ⟨es', d'', hrun', hstep'', hahead''⟩ :=
      exists_run_continuation more (op.apply lib left (operand.value lib)) hstep' hahead' hvs hrest
        (fun m hlim ↦ by have := hn m hlim; rw [hrun.openLevels_of_ok, hlevels]; omega)
    exact ⟨_, d'', .step hpeek hop hd hrun hrun', hstep'', hahead''⟩

end

end Descent

end DeskCalculator
