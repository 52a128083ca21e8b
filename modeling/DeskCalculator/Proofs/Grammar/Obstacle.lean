import DeskCalculator.Proofs.Descent.Greedy
import DeskCalculator.Proofs.Grammar.Expectation
import DeskCalculator.Proofs.Grammar.Soundness
import DeskCalculator.Proofs.Scan.Row

/-!
# Where a run fails

A run that fails has read tokens that were all expected, and then comes to an *obstacle*: a stray
character, a token that is not expected, the end of the source where more is expected, or a factor
beyond the limit on the nesting. What was expected there tells the kind of the error.

## Main definitions

* `Obstacle`: the error for what is expected and what is ahead.
* `FailsFrom`: an error behind tokens that were all expected.

## Main results

* `Descent.Run.failsFrom`: where a run fails.
* `exists_obstacle_of_evaluateWithin`: where an evaluation fails.
-/

namespace DeskCalculator

/-- The error for what is expected and the pieces that are ahead. -/
inductive Obstacle (extent : Nat) : Expectation → List Piece → SyntaxError → Prop
  /-- A stray character is never expected. -/
  | stray {s q qs} (hq : q.token? = none) :
      Obstacle extent s (q :: qs) (.unexpectedToken q.spelling q.start)
  /-- A token cannot begin an operand. -/
  | unexpected {k q qs t} (hq : q.token? = some t) (ht : (Expectation.operand k).step t = none) :
      Obstacle extent (.operand k) (q :: qs) (.unexpectedToken t.text q.start)
  /-- The source ends where an operand is expected. -/
  | ended {k} : Obstacle extent (.operand k) [] (.unexpectedEnd extent)
  /-- A token neither goes on with a group nor closes it. -/
  | unclosed {k q qs t} (hq : q.token? = some t)
      (ht : (Expectation.operator (k + 1)).step t = none) :
      Obstacle extent (.operator (k + 1)) (q :: qs) (.unclosedGroup q.start)
  /-- The source ends in a group. -/
  | unclosedAtEnd {k} : Obstacle extent (.operator (k + 1)) [] (.unclosedGroup extent)
  /-- A token does not go on with a complete expression. -/
  | trailing {q qs t} (hq : q.token? = some t) (ht : (Expectation.operator 0).step t = none) :
      Obstacle extent (.operator 0) (q :: qs) (.trailingToken t.text q.start)
  /-- A factor is nested too deeply, and no stray character begins it. -/
  | tooDeep {k qs} (hq : ∀ q ∈ qs.head?, q.token? ≠ none) :
      Obstacle extent (.operand k) qs (.tooDeep (startOf extent qs))

/-- The error is found where the pieces begin that are ahead. -/
theorem Obstacle.position_eq {extent : Nat} {s : Expectation} {qs : List Piece} {e : SyntaxError}
    (h : Obstacle extent s qs e) : e.position = startOf extent qs := by
  cases h <;> rfl

/-- A stray character that is ahead is the obstacle. -/
theorem Obstacle.eq_of_stray {extent : Nat} {s : Expectation} {qs : List Piece} {e : SyntaxError}
    (h : Obstacle extent s qs e) :
    ∀ q ∈ qs.head?, q.token? = none → e = .unexpectedToken q.spelling q.start := by
  intro q hq hnone
  cases h with
  | stray =>
    obtain rfl := Option.some.inj hq
    rfl
  | unexpected ht | unclosed ht | trailing ht =>
    obtain rfl := Option.some.inj hq
    rw [hnone] at ht
    cases ht
  | ended | unclosedAtEnd => cases hq
  | tooDeep htoken => exact absurd hnone (htoken q hq)

/-- The error comes at an obstacle ahead of a cursor, behind tokens that were all expected. -/
def FailsFrom (c : Cursor) (start : Expectation) (e : SyntaxError) : Prop :=
  ∃ ps ts s qs, c.ahead = ps ++ qs ∧ Spells ps ts ∧ start.after ts = some s ∧
    Obstacle c.extent s qs e

theorem FailsFrom.of_obstacle {c : Cursor} {s : Expectation} {e : SyntaxError}
    (h : Obstacle c.extent s c.ahead e) : FailsFrom c s e :=
  ⟨[], [], s, c.ahead, rfl, rfl, rfl, h⟩

/-- Tokens that were read and were expected come before the others. -/
theorem FailsFrom.of_reads {c d : Cursor} {ts : List Token} {start s : Expectation}
    {e : SyntaxError} (h : FailsFrom d s e) (hreads : c.Reads ts d) (hfollows : c.Follows d)
    (hs : start.after ts = some s) : FailsFrom c start e := by
  obtain ⟨ps, hps, hts⟩ := hreads
  obtain ⟨qs, us, s', rest, hqs, hus, hs', hobstacle⟩ := h
  refine ⟨ps ++ qs, ts ++ us, s', rest, ?_, spells_append_iff.mpr ⟨_, _, rfl, hts, hus⟩, ?_, ?_⟩
  · rw [hps, hqs, List.append_assoc]
  · rw [Expectation.after_append_of_eq hs, hs']
  · rwa [← hfollows.extent_eq]

/-- A cursor that is in step stands at the first piece ahead. -/
theorem Cursor.InStep.position_eq {c : Cursor} (h : c.InStep) :
    c.position = startOf c.extent c.ahead := by
  cases hpeek : c.peek with
  | none =>
    obtain ⟨hahead, hposition⟩ := h.ahead_of_peek_none hpeek
    rw [hahead, hposition]
    rfl
  | some t =>
    obtain ⟨p, ps, hahead, -, hposition⟩ := h.ahead_of_peek hpeek
    rw [hahead, hposition]
    rfl

/-- A cursor that is in step does not stand at a stray character. -/
theorem Cursor.InStep.token_of_mem_ahead {c : Cursor} (h : c.InStep) :
    ∀ q ∈ c.ahead.head?, q.token? ≠ none := by
  intro q hq
  obtain ⟨qs, hqs⟩ := List.head?_eq_some_iff.mp hq
  obtain ⟨t, ht, -⟩ := h.lookahead_of_cons q qs hqs
  rw [ht]
  exact Option.some_ne_none t

namespace Descent

/-- What is expected where a task begins, with a number of groups open. -/
def Task.expectation : Task → Nat → Expectation
  | rule _, k | unit, k => .operand k
  | exponent _, k | more _ _, k => .operator k

/-- A token with which a task begins is expected there. -/
theorem Task.exists_step_of_takes {task : Task} {t : Token} (h : task.takes t = true) (k : Nat) :
    ∃ s, (task.expectation k).step t = some s := by
  match task with
  | .rule .primary => cases t <;> first | exact ⟨_, rfl⟩ | cases h
  | .unit => exact ⟨_, Expectation.step_operand_sign h k⟩
  | .exponent base =>
    obtain rfl : t = .caret := of_decide_eq_true h
    exact ⟨_, rfl⟩
  | .more l left => exact ⟨_, Expectation.step_operator_binary (l.isSome_binary? h) k⟩

/-- A token that begins neither a primary nor a signed factor is not expected as an operand. -/
theorem Task.step_eq_none_of_takes {t : Token} (h : (Task.rule .primary).takes t = false)
    (hsign : t.sign? = none) (k : Nat) : (Expectation.operand k).step t = none := by
  cases t with
  | number v => rw [takes_number] at h; cases h
  | leftParen => rw [takes_leftParen] at h; cases h
  | plus | minus => cases hsign
  | star | slash | caret | rightParen => rfl

variable {lib : Elementary} {limit? : Option Nat} {task : Task} {c : Cursor} {es : List Event}
  {r : Outcome}

/-- What a task has read was expected, and leaves an operator expected. -/
theorem Task.Derives.after {ts : List Token} {n : Nat} {v : Float} (h : task.Derives lib ts n v)
    (k : Nat) : (task.expectation k).after ts = some (.operator k) := by
  match task with
  | .rule r =>
    obtain ⟨d, rfl, -⟩ := h
    exact d.after_tokens k
  | .unit =>
    obtain ⟨d, rfl, -⟩ := h
    exact d.after_tokens k
  | .exponent base =>
    obtain ⟨rfl, -⟩ | ⟨d, rfl, -⟩ := h
    · rfl
    · rw [Expectation.after_cons]
      exact d.after_tokens k
  | .more l left =>
    obtain ⟨m, rfl, -⟩ := h
    exact m.after_tokens k

/-- A primary is begun only where no sign is looked at. -/
def Task.Begun : Task → Cursor → Prop
  | rule .primary, c => c.peek.bind Token.sign? = none
  | rule .factor, _ | rule (.chain _), _ | unit, _ | exponent _, _ | more _ _, _ => True

theorem Task.begun_operand (l : Level) (c : Cursor) : (Task.rule l.operand).Begun c := by
  cases l <;> trivial

/-- An expected token is read, and the character behind it is stray. -/
theorem failsFrom_of_advance_error {d : Cursor} {start s : Expectation} {t : Token}
    {e : SyntaxError} (hc : c.InStep) (ht : c.peek = some t) (hs : start.step t = some s)
    (he : c.advance = .error e d) : FailsFrom c start e := by
  obtain ⟨p, ps, hahead, hp, -⟩ := hc.ahead_of_peek ht
  obtain ⟨q, qs, rfl, hq, rfl⟩ := hc.of_advance_error hahead he
  refine ⟨[p], [t], s, q :: qs, hahead, ?_, ?_, .stray hq⟩
  · rw [Spells, List.map_singleton, List.map_singleton, hp]
  · rw [Expectation.after_singleton, hs]

/-- An expected token is read, and what comes behind it fails. -/
theorem failsFrom_of_advance_ok {d : Cursor} {start s : Expectation} {t : Token}
    {e : SyntaxError} (hc : c.InStep) (ht : c.peek = some t) (hs : start.step t = some s)
    (ha : c.advance = .ok () d) (h : FailsFrom d s e) : FailsFrom c start e := by
  obtain ⟨-, hreads⟩ := hc.reads_of_advance_ok ht ha
  refine h.of_reads hreads (Cursor.follows_of_advance_ok ha) ?_
  rw [Expectation.after_singleton, hs]

/-- What a successful run has read was expected, and the run behind it fails. -/
theorem Run.failsFrom_of_ok {c' : Cursor} {k : Nat} {v : Float} {e : SyntaxError}
    (hrun : Run lib limit? task c es (.ok v c')) (hc : c.InStep)
    (h : FailsFrom c' (.operator k) e) : FailsFrom c (task.expectation k) e := by
  obtain ⟨-, ts, n, hreads, hder, -⟩ := hrun.sound hc v c' rfl
  exact h.of_reads hreads hrun.follows (hder.after k)

/-- Behind the expression of a group is neither an operator nor the end of the group. -/
theorem failsFrom_unclosed {d : Cursor} (hd : d.InStep) (hopen : d.peek ≠ some .rightParen)
    (howns : ∀ t, d.peek = some t → (Task.rule .expression).owns t = false) (k : Nat) :
    FailsFrom d (.operator (k + 1)) (.unclosedGroup d.position) := by
  refine .of_obstacle ?_
  cases ht : d.peek with
  | none =>
    obtain ⟨hahead, hposition⟩ := hd.ahead_of_peek_none ht
    rw [hahead, hposition]
    exact .unclosedAtEnd
  | some t =>
    obtain ⟨p, ps, hahead, hp, hposition⟩ := hd.ahead_of_peek ht
    rw [hahead, hposition]
    exact .unclosed hp (Expectation.step_operator_eq_none (howns t ht) (ht ▸ hopen) (k + 1))

/-- Where a run fails: the tokens it has read were expected, and behind them is an
obstacle. -/
theorem Run.failsFrom (h : Run lib limit? task c es r) (hc : c.InStep) (hbegun : task.Begun c) :
    ∀ k e d, r = .error e d → FailsFrom c (task.expectation k) e := by
  induction h with
  | number | group | unraised | finished => exact nofun
  | refused =>
    rintro k e d ⟨⟩
    rw [hc.position_eq]
    exact .of_obstacle (.tooDeep hc.token_of_mem_ahead)
  | factor _ _ ih =>
    intro k e d hr
    obtain ⟨d', rfl, -⟩ := closeLevel_eq_error_iff.mp hr
    exact ih hc.of_openLevel trivial k e d' rfl
  | signed hpeek hsign ha _ ih =>
    intro k e d hr
    obtain rfl := mapValue_eq_error_iff.mp hr
    have hs := Expectation.step_operand_sign (by rw [hsign, Option.isSome_some]) k
    have hc' := (hc.reads_of_advance_ok hpeek ha).1
    exact failsFrom_of_advance_ok hc hpeek hs ha (ih hc' trivial k e d rfl)
  | unsigned_error hpeek _ ih => exact ih hc hpeek
  | unsigned hpeek hbase _ ih ih' =>
    intro k e d hr
    have hc' := (hbase.sound hc _ _ rfl).1
    exact hbase.failsFrom_of_ok hc (ih' hc' trivial k e d hr)
  | group_error hpeek ha _ ih =>
    intro k e d hr
    have hc' := (hc.reads_of_advance_ok hpeek ha).1
    exact failsFrom_of_advance_ok hc hpeek rfl ha (ih hc' trivial (k + 1) e d hr)
  | @group_stray _ _ _ _ _ _ e hpeek ha hinner hclose he =>
    rintro k _ d ⟨⟩
    have hc' := (hc.reads_of_advance_ok hpeek ha).1
    have hc'' := (hinner.sound hc' _ _ rfl).1
    have hlast : FailsFrom _ (.operator (k + 1)) e :=
      failsFrom_of_advance_error hc'' hclose rfl he
    exact failsFrom_of_advance_ok hc hpeek rfl ha (hinner.failsFrom_of_ok hc' hlast)
  | unclosed hpeek ha hinner hopen =>
    rintro k e d ⟨⟩
    have hc' := (hc.reads_of_advance_ok hpeek ha).1
    have hc'' := (hinner.sound hc' _ _ rfl).1
    have hlast := failsFrom_unclosed hc'' hopen (hinner.owns_eq_false trivial _ _ rfl) k
    exact failsFrom_of_advance_ok hc hpeek rfl ha (hinner.failsFrom_of_ok hc' hlast)
  | unexpected hpeek ht =>
    rintro k e d ⟨⟩
    obtain ⟨p, ps, hahead, hp, hposition⟩ := hc.ahead_of_peek hpeek
    rw [hposition]
    refine .of_obstacle ?_
    rw [hahead]
    exact .unexpected hp (Task.step_eq_none_of_takes ht (by rwa [Task.Begun, hpeek] at hbegun) k)
  | missing hpeek =>
    rintro k e d ⟨⟩
    obtain ⟨hahead, hposition⟩ := hc.ahead_of_peek_none hpeek
    rw [hposition]
    refine .of_obstacle ?_
    rw [hahead]
    exact .ended
  | raised hpeek ha _ ih =>
    intro k e d hr
    obtain rfl := mapValue_eq_error_iff.mp hr
    have hc' := (hc.reads_of_advance_ok hpeek ha).1
    exact failsFrom_of_advance_ok hc hpeek rfl ha (ih hc' trivial k e d rfl)
  | chain_error _ ih => exact ih hc (Task.begun_operand _ _)
  | chain hfirst _ ih ih' =>
    intro k e d hr
    have hc' := (hfirst.sound hc _ _ rfl).1
    exact hfirst.failsFrom_of_ok hc (ih' hc' trivial k e d hr)
  | @step_error _ _ _ l _ t _ _ _ hpeek hop ha _ ih =>
    intro k e d hr
    have hs := Expectation.step_operator_binary
      (l.isSome_binary? (by rw [hop, Option.isSome_some])) k
    have hc' := (hc.reads_of_advance_ok hpeek ha).1
    exact failsFrom_of_advance_ok hc hpeek hs ha (ih hc' (Task.begun_operand _ _) k e d hr)
  | @step _ _ _ l _ t _ _ _ _ _ hpeek hop ha hoperand _ ih ih' =>
    intro k e d hr
    have hs := Expectation.step_operator_binary
      (l.isSome_binary? (by rw [hop, Option.isSome_some])) k
    have hc' := (hc.reads_of_advance_ok hpeek ha).1
    have hc'' := (hoperand.sound hc' _ _ rfl).1
    exact failsFrom_of_advance_ok hc hpeek hs ha
      (hoperand.failsFrom_of_ok hc' (ih' hc'' trivial k e d hr))
  | stray hpeek ht he =>
    rintro k e d ⟨⟩
    obtain ⟨s, hs⟩ := Task.exists_step_of_takes ht k
    exact failsFrom_of_advance_error hc hpeek hs he

end Descent

/-- Where an evaluation fails: some tokens were expected, and behind them is an obstacle. -/
theorem exists_obstacle_of_evaluateWithin {lib : Elementary} {limit? : Option Nat}
    {source : String} {e : SyntaxError} (h : evaluateWithin limit? lib source = .error e) :
    ∃ ps ts s qs, (pieces source).toList = ps ++ qs ∧ Spells ps ts ∧
      (Expectation.operand 0).after ts = some s ∧ Obstacle source.utf8ByteSize s qs e := by
  obtain ⟨es, hevaluation⟩ := Descent.exists_evaluation lib limit? source
  rw [h] at hevaluation
  generalize hout : Except.error e = out at hevaluation
  cases hevaluation with
  | unreadable hsource =>
    obtain ⟨q, qs, hpieces, hq, rfl⟩ := Cursor.stray_of_ofSource_error hsource
    obtain rfl := Except.error.inj hout
    exact ⟨[], [], _, q :: qs, hpieces, rfl, rfl, .stray hq⟩
  | @evaluated c _ r hsource run =>
    obtain ⟨hstep, hahead, -, hextent⟩ := Cursor.inStep_of_ofSource hsource
    rw [← hahead, ← hextent]
    change FailsFrom c (.operand 0) e
    cases r with
    | error e' d =>
      obtain rfl := Except.error.inj hout
      exact run.failsFrom hstep trivial 0 e d rfl
    | ok v d =>
      have hd := (run.sound hstep v d rfl).1
      rw [Descent.verdict] at hout
      cases hpeek : d.peek with
      | none => simp [hpeek] at hout
      | some t =>
        obtain ⟨p, ps, hahead', hp, hposition⟩ := hd.ahead_of_peek hpeek
        obtain rfl : e = .trailingToken t.text p.start := by simpa [hpeek, hposition] using hout
        have howns := run.owns_eq_false trivial v d rfl t hpeek
        have hlast : FailsFrom d (.operator 0) (.trailingToken t.text p.start) := by
          refine .of_obstacle ?_
          rw [hahead']
          exact .trailing hp (Expectation.step_operator_zero_eq_none howns)
        exact run.failsFrom_of_ok hstep hlast

end DeskCalculator
