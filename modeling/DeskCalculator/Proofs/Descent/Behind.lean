import DeskCalculator.Proofs.Grammar.Completeness

/-!
# What stands behind a derivation

In front of a derivation the descent reads all of it, and what happens then depends on the pieces
behind. Before a stray character already the last step over the derivation fails, and the error goes
up through all rules that are open. An operator at the end of the source makes the chain that it
belongs to go on, and its right operand is missing. In neither case is a factor opened that the
derivation does not account for: its levels are closed when its last token is used up. So the limit
on the nesting takes no part in it.

## Main definitions

* `Descent.FailsBefore`: derivations of a rule in front of which the descent fails, because of the
  pieces behind them.

## Main results

* `Descent.failsBefore_stray`: every derivation with a stray character behind it.
* `Descent.failsBefore_operator`: a chain with one of its operators behind it, at the end.
* `Descent.FailsBefore.chain`: a chain fails before what its operands fail before.
-/

namespace DeskCalculator

namespace Descent

/-- In front of a derivation of the rule with these pieces behind it, over a source of `extent`
bytes, the run of the rule fails with this error. -/
def FailsBefore (lib : Elementary) (limit? : Option Nat) (extent : Nat) (r : Rule)
    (rest : List Piece) (e : SyntaxError) : Prop :=
  ∀ (der : Derivation r) {c : Cursor} {ps : List Piece}, c.InStep → c.extent = extent →
    c.ahead = ps ++ rest → Spells ps der.tokens →
    (∀ m ∈ limit?, der.nesting ≤ m - c.openLevels) →
      ∃ es d, Run lib limit? (.rule r) c es (.error e d)

variable {lib : Elementary} {limit? : Option Nat} {extent : Nat} {c : Cursor}
  {ps rest qs : List Piece} {e : SyntaxError} {q : Piece}

/-- The step over a token with another token behind it. -/
theorem exists_step_of_ne_nil {t : Token} {ts : List Token} (hc : c.InStep)
    (ha : c.ahead = ps ++ rest) (hs : Spells ps (t :: ts)) (hts : ts ≠ []) :
    ∃ qs d, Spells qs ts ∧ c.peek = some t ∧ c.advance = .ok () d ∧ d.InStep ∧
      d.ahead = qs ++ rest ∧ d.openLevels = c.openLevels ∧ d.extent = c.extent := by
  obtain ⟨p, qs, rfl, hp, hqs⟩ := spells_cons_iff.mp hs
  obtain ⟨u, us, rfl⟩ := List.exists_cons_of_ne_nil hts
  obtain ⟨q, qs', rfl, hq, hqs'⟩ := spells_cons_iff.mp hqs
  have hfirst : Spells [p] [t] := spells_cons_iff.mpr ⟨p, [], rfl, hp, rfl⟩
  have hstop : Rule.primary.StopsBefore (q :: qs' ++ rest) := stopsBefore_cons hq rfl
  have hahead : c.ahead = [p] ++ (q :: qs' ++ rest) := ha
  obtain ⟨ws, d, hws, hpeek, hd, hstep, hrest, hlevels⟩ := exists_step hc hahead hfirst hstop
  rw [spells_nil_iff.mp hws] at hrest
  exact ⟨_, d, hqs, hpeek, hd, hstep, hrest, hlevels, (Cursor.follows_of_advance_ok hd).extent_eq⟩

/-! ### What the parts fail before -/

/-- In front of a factor the descent fails before what primaries fail before. -/
theorem FailsBefore.exists_run_factor (h : FailsBefore lib limit? extent .primary rest e)
    (der : Derivation .factor) {c : Cursor} {ps : List Piece} (hc : c.InStep)
    (hextent : c.extent = extent) (ha : c.ahead = ps ++ rest) (hs : Spells ps der.tokens)
    (hn : ∀ m ∈ limit?, der.nesting ≤ m - c.openLevels) :
    ∃ es d, Run lib limit? (.rule .factor) c es (.error e d) := by
  match der with
  | .signed mark sign hm operand =>
    rw [Derivation.tokens] at hs
    rw [Derivation.nesting] at hn
    obtain ⟨qs, d, hqs, hpeek, hd, hstep, hahead, hlevels, hextent'⟩ :=
      exists_step_of_ne_nil hc.of_openLevel ha hs operand.tokens_ne_nil
    obtain ⟨es, d', hrun⟩ := h.exists_run_factor operand hstep (hextent'.trans hextent) hahead hqs
      (fun m hlim ↦ by have := hn m hlim; rw [hlevels, openLevels_openLevel]; omega)
    exact ⟨_, _, (hrun.signed hpeek hm hd).factor (not_refused hn)⟩
  | .plain base =>
    rw [Derivation.tokens] at hs
    rw [Derivation.nesting] at hn
    obtain ⟨es, d, hrun⟩ := h base hc.of_openLevel hextent ha hs
      (fun m hlim ↦ by have := hn m hlim; rw [openLevels_openLevel]; omega)
    have hsign := unsigned_of_spells base hc.of_openLevel ha hs
    exact ⟨_, _, (Run.unsigned_error hsign hrun).factor (not_refused hn)⟩
  | .power base exponent =>
    rw [Derivation.tokens] at hs
    rw [Derivation.nesting] at hn
    obtain ⟨us, vs, rfl, hus, hvs⟩ := spells_append_iff.mp hs
    rw [List.append_assoc] at ha
    obtain ⟨es, d, hrun, hstep, hahead⟩ : ∃ es d, Run lib limit? _ _ es (.ok (base.value lib) d) ∧
        d.InStep ∧ d.ahead = vs ++ rest :=
      exists_run_derivation base hc.of_openLevel ha hus
        (stopsBefore_append hvs (Rule.stops_primary _) (by simp))
        (fun m hlim ↦ by have := hn m hlim; rw [openLevels_openLevel]; omega)
    obtain ⟨qs, d', hqs, hpeek, hd, hstep', hahead', hlevels, hextent'⟩ :=
      exists_step_of_ne_nil hstep hahead hvs exponent.tokens_ne_nil
    obtain ⟨es', d'', hrun'⟩ := h.exists_run_factor exponent hstep'
      (hextent'.trans (hrun.follows.extent_eq.trans hextent)) hahead' hqs (fun m hlim ↦ by
        have := hn m hlim
        rw [hlevels, hrun.openLevels_of_ok, openLevels_openLevel]
        omega)
    have hsign := unsigned_of_spells base hc.of_openLevel ha hus
    exact ⟨_, _, (Run.unsigned hsign hrun (hrun'.raised hpeek hd)).factor (not_refused hn)⟩

/-- A factor fails before what its primaries fail before. -/
theorem FailsBefore.factor (h : FailsBefore lib limit? extent .primary rest e) :
    FailsBefore lib limit? extent .factor rest e :=
  fun der _ _ hc hextent ha hs hn ↦ h.exists_run_factor der hc hextent ha hs hn

/-- Behind the operands before it, the last operand of a chain fails. -/
theorem FailsBefore.more {l : Level} (h : FailsBefore lib limit? extent l.operand rest e)
    (k : Continuation l) (left : Float) {c : Cursor} {ps : List Piece} (hk : k.tokens ≠ [])
    (hc : c.InStep) (hextent : c.extent = extent) (ha : c.ahead = ps ++ rest)
    (hs : Spells ps k.tokens) (hn : ∀ m ∈ limit?, k.nesting ≤ m - c.openLevels) :
    ∃ es d, Run lib limit? (.more l left) c es (.error e d) := by
  match k with
  | .done _ => exact absurd rfl hk
  | .step _ mark op hop operand more =>
    rw [Continuation.tokens] at hs
    rw [Continuation.nesting] at hn
    obtain ⟨qs, d, hqs, hpeek, hd, hstep, hahead, hlevels, hextent'⟩ := exists_step_of_ne_nil hc ha
      hs (List.append_ne_nil_of_left_ne_nil operand.tokens_ne_nil _)
    by_cases hmore : more.tokens = []
    · rw [hmore, List.append_nil] at hqs
      obtain ⟨es, d', hrun⟩ := h operand hstep (hextent'.trans hextent) hahead hqs
        (fun m hlim ↦ by have := hn m hlim; rw [hlevels]; omega)
      exact ⟨_, d', .step_error hpeek hop hd hrun⟩
    · obtain ⟨us, vs, rfl, hus, hvs⟩ := spells_append_iff.mp hqs
      rw [List.append_assoc] at hahead
      obtain ⟨es, d', hrun, hstep', hahead'⟩ : ∃ es d',
          Run lib limit? _ d es (.ok (operand.value lib) d') ∧ d'.InStep ∧ d'.ahead = vs ++ rest :=
        exists_run_derivation operand hstep hahead hus
          (stopsBefore_operators more hvs (absurd · hmore))
          (fun m hlim ↦ by have := hn m hlim; rw [hlevels]; omega)
      obtain ⟨es', d'', hrun'⟩ := h.more more (op.apply lib left (operand.value lib)) hmore hstep'
        (hrun.follows.extent_eq.trans (hextent'.trans hextent)) hahead' hvs
        (fun m hlim ↦ by have := hn m hlim; rw [hrun.openLevels_of_ok, hlevels]; omega)
      exact ⟨_, d'', .step hpeek hop hd hrun hrun'⟩

/-- A chain fails before what its operands fail before. -/
theorem FailsBefore.chain {l : Level} (h : FailsBefore lib limit? extent l.operand rest e) :
    FailsBefore lib limit? extent (.chain l) rest e := by
  intro der c ps hc hextent ha hs hn
  match der with
  | .chain _ first more =>
    rw [Derivation.tokens] at hs
    rw [Derivation.nesting] at hn
    by_cases hmore : more.tokens = []
    · rw [hmore, List.append_nil] at hs
      obtain ⟨es, d, hrun⟩ := h first hc hextent ha hs
        (fun m hlim ↦ by have := hn m hlim; omega)
      exact ⟨_, d, .chain_error hrun⟩
    · obtain ⟨us, vs, rfl, hus, hvs⟩ := spells_append_iff.mp hs
      rw [List.append_assoc] at ha
      obtain ⟨es, d, hrun, hstep, hahead⟩ : ∃ es d,
          Run lib limit? _ c es (.ok (first.value lib) d) ∧ d.InStep ∧ d.ahead = vs ++ rest :=
        exists_run_derivation first hc ha hus (stopsBefore_operators more hvs (absurd · hmore))
          (fun m hlim ↦ by have := hn m hlim; omega)
      obtain ⟨es', d', hrun'⟩ := h.more more (first.value lib) hmore hstep
        (hrun.follows.extent_eq.trans hextent) hahead hvs
        (fun m hlim ↦ by have := hn m hlim; rw [hrun.openLevels_of_ok]; omega)
      exact ⟨_, d', .chain hrun hrun'⟩

/-! ### A stray character -/

/-- Before a stray character a primary fails at its last token. -/
theorem failsBefore_stray_primary (hq : q.token? = none) :
    FailsBefore lib limit? extent .primary (q :: qs) (.unexpectedToken q.spelling q.start) := by
  intro der c ps hc _ ha hs hn
  match der with
  | .number value =>
    rw [Derivation.tokens] at hs
    obtain ⟨p, _, rfl, hp, hnil⟩ := spells_cons_iff.mp hs
    rw [spells_nil_iff.mp hnil] at ha
    have hpeek : c.peek = some (.number value) := by rw [hc.peek_eq, ha]; exact hp
    obtain ⟨d, hd⟩ := Cursor.exists_advance_error (hc.rest_eq ha) hq
    exact ⟨_, d, .stray hpeek (takes_number value) hd⟩
  | .group inner =>
    rw [Derivation.tokens] at hs
    obtain ⟨us, d, hus, hpeek, hd, hstep, hahead, hlevels, -⟩ :=
      exists_step_of_ne_nil hc ha hs (by simp)
    obtain ⟨vs, ws, rfl, hvs, hws⟩ := spells_append_iff.mp hus
    obtain ⟨p, _, rfl, hp, hnil⟩ := spells_cons_iff.mp hws
    rw [spells_nil_iff.mp hnil, List.append_assoc] at hahead
    obtain ⟨es, d', hrun, hstep', hahead'⟩ : ∃ es d', Run lib limit? _ d es
        (.ok (inner.value lib) d') ∧ d'.InStep ∧ d'.ahead = p :: q :: qs :=
      exists_run_derivation inner hstep hahead hvs (stopsBefore_cons hp rfl)
        (by rwa [hlevels, ← Derivation.nesting])
    have hpeek' : d'.peek = some .rightParen := by rw [hstep'.peek_eq, hahead']; exact hp
    obtain ⟨d'', hd'⟩ := Cursor.exists_advance_error (hstep'.rest_eq hahead') hq
    exact ⟨_, d'', .group_stray hpeek hd hrun hpeek' hd'⟩

/-- Before a stray character an expression fails at its last token. -/
theorem failsBefore_stray (hq : q.token? = none) :
    FailsBefore lib limit? extent .expression (q :: qs) (.unexpectedToken q.spelling q.start) :=
  have hterm : FailsBefore lib limit? extent .term _ _ :=
    FailsBefore.chain (l := .product) (failsBefore_stray_primary hq).factor
  FailsBefore.chain (l := .sum) hterm

/-! ### An operator at the end -/

/-- At the end of the source an operand is missing. -/
theorem exists_run_missing (lib : Elementary) (l : Level) (hc : c.InStep) (ha : c.ahead = [])
    (hlimit : limit?.any (· ≤ c.openLevels) = false) :
    ∃ es d, Run lib limit? (.rule l.operand) c es (.error (.unexpectedEnd c.extent) d) := by
  have hpeek : c.peek = none := by rw [hc.peek_eq, ha]; rfl
  have hne : l.operand ≠ .primary := by cases l <;> exact nofun
  obtain ⟨es, hrun⟩ := run_of_exhausted lib limit? hpeek hne
  rw [hlimit, (hc.ahead_of_peek_none hpeek).2] at hrun
  exact ⟨es, c, hrun⟩

/-- An operand of a chain nests at least one factor. -/
theorem nesting_operand_pos (l : Level) (d : Derivation l.operand) : 0 < d.nesting := by
  have hfactor (d : Derivation .factor) : 0 < d.nesting := by
    cases d <;> exact Nat.succ_pos _
  match l, d with
  | .product, d => exact hfactor d
  | .sum, .chain _ first more => exact Nat.lt_of_lt_of_le (hfactor first) (Nat.le_max_left _ _)

/-- Behind the rest of a chain an operator of its level makes the chain go on. -/
theorem exists_run_more_operator (lib : Elementary) {l : Level} {t : Token}
    {op : BinaryOperator} (hq : q.token? = some t) (hop : l.operator? t = some op)
    (k : Continuation l) (left : Float) {c : Cursor} {ps : List Piece} (hc : c.InStep)
    (ha : c.ahead = ps ++ [q]) (hs : Spells ps k.tokens)
    (hn : ∀ m ∈ limit?, k.nesting ≤ m - c.openLevels)
    (hlimit : limit?.any (· ≤ c.openLevels) = false) :
    ∃ es d, Run lib limit? (.more l left) c es (.error (.unexpectedEnd c.extent) d) := by
  have hstops : l.operand.StopsBefore [q] :=
    stopsBefore_cons hq (Rule.owns_operand (by rw [hop, Option.isSome_some]))
  cases k with
  | done =>
    rw [Continuation.tokens, spells_nil_iff] at hs
    rw [hs, List.nil_append] at ha
    have hpeek : c.peek = some t := by rw [hc.peek_eq, ha]; exact hq
    obtain ⟨d, hd⟩ := Cursor.exists_advance_ok (c := c) (by simp [hc.rest_eq ha])
    obtain ⟨hstep, hahead⟩ := hc.of_advance_ok ha hd
    obtain ⟨es, d', hrun⟩ := exists_run_missing lib l hstep hahead
      (by rwa [Cursor.openLevels_of_advance_ok hd])
    rw [(Cursor.follows_of_advance_ok hd).extent_eq] at hrun
    exact ⟨_, d', .step_error hpeek hop hd hrun⟩
  | step _ mark op' hop' operand more =>
    rw [Continuation.tokens] at hs
    rw [Continuation.nesting] at hn
    obtain ⟨qs, d, hqs, hpeek, hd, hstep, hahead, hlevels, hextent⟩ := exists_step_of_ne_nil hc ha
      hs (List.append_ne_nil_of_left_ne_nil operand.tokens_ne_nil _)
    obtain ⟨us, vs, rfl, hus, hvs⟩ := spells_append_iff.mp hqs
    rw [List.append_assoc] at hahead
    obtain ⟨es, d', hrun, hstep', hahead'⟩ : ∃ es d',
        Run lib limit? _ d es (.ok (operand.value lib) d') ∧ d'.InStep ∧ d'.ahead = vs ++ [q] :=
      exists_run_derivation operand hstep hahead hus (stopsBefore_operators more hvs fun _ ↦ hstops)
        (fun m hlim ↦ by have := hn m hlim; rw [hlevels]; omega)
    have hlevels' : d'.openLevels = c.openLevels := hrun.openLevels_of_ok.trans hlevels
    obtain ⟨es', d'', hrun'⟩ := exists_run_more_operator lib hq hop more
      (op'.apply lib left (operand.value lib)) hstep' hahead' hvs
      (fun m hlim ↦ by have := hn m hlim; rw [hlevels']; omega) (by rwa [hlevels'])
    have hextent' : d'.extent = c.extent := hrun.follows.extent_eq.trans hextent
    rw [hextent'] at hrun'
    exact ⟨_, d'', .step hpeek hop' hd hrun hrun'⟩

/-- An operator at the end of the source has no right operand. -/
theorem failsBefore_operator {l : Level} {t : Token} {op : BinaryOperator}
    (hq : q.token? = some t) (hop : l.operator? t = some op) :
    FailsBefore lib limit? extent (.chain l) [q] (.unexpectedEnd extent) := by
  intro der c ps hc hextent ha hs hn
  match der with
  | .chain _ first more =>
    rw [Derivation.tokens] at hs
    rw [Derivation.nesting] at hn
    have hstops : l.operand.StopsBefore [q] :=
      stopsBefore_cons hq (Rule.owns_operand (by rw [hop, Option.isSome_some]))
    -- A level that the first operand needs is free again when the right operand is missing.
    have hlimit : limit?.any (· ≤ c.openLevels) = false := not_refused (n := 0) fun m hlim ↦ by
      have := hn m hlim
      have := nesting_operand_pos l first
      omega
    obtain ⟨us, vs, rfl, hus, hvs⟩ := spells_append_iff.mp hs
    rw [List.append_assoc] at ha
    obtain ⟨es, d, hrun, hstep, hahead⟩ : ∃ es d,
        Run lib limit? _ c es (.ok (first.value lib) d) ∧ d.InStep ∧ d.ahead = vs ++ [q] :=
      exists_run_derivation first hc ha hus (stopsBefore_operators more hvs fun _ ↦ hstops)
        (fun m hlim ↦ by have := hn m hlim; omega)
    have hlevels : d.openLevels = c.openLevels := hrun.openLevels_of_ok
    obtain ⟨es', d', hrun'⟩ := exists_run_more_operator lib hq hop more (first.value lib) hstep
      hahead hvs (fun m hlim ↦ by have := hn m hlim; rw [hlevels]; omega) (by rwa [hlevels])
    have hextent' : d.extent = extent := hrun.follows.extent_eq.trans hextent
    rw [hextent'] at hrun'
    exact ⟨_, d', .chain hrun hrun'⟩

/-- An operator of sums or products at the end of the source has no right operand. -/
theorem failsBefore_operator_expression {l : Level} {t : Token} {op : BinaryOperator}
    (hq : q.token? = some t) (hop : l.operator? t = some op) :
    FailsBefore lib limit? extent .expression [q] (.unexpectedEnd extent) := by
  match l with
  | .sum => exact failsBefore_operator hq hop
  | .product => exact FailsBefore.chain (l := .sum) (failsBefore_operator hq hop)

end Descent

end DeskCalculator
