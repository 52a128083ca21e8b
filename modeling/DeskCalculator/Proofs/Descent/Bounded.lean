import DeskCalculator.Proofs.Descent.Levels
import DeskCalculator.Proofs.Descent.NestingLimit

/-!
# Reading is bounded

The rules come back to each other through the factor alone, and a factor opens a level. So the limit
on the levels bounds the recursion, whatever the source is and however it goes wrong: as many
factors inside each other as the limit allows, and one more that is refused, are enough for any
production on any reachable cursor. The productions allow for as many as there are pieces, which is
another bound. Both give the outcome of the run, which is found without any bound and is finite.

A run steps only over a token. So it asks for pieces that have not been asked for before, each of
them once, and at most once beyond the last piece.

## Main definitions

* `Cursor.Asks`: the pieces that are asked for on the way from one cursor to another.
* `Cursor.IsBounded`: the bounds on the reading of a rule from a cursor.

## Main results

* `Descent.Run.firstBeyond_eq_none`: under a limit no level is opened beyond it.
* `Descent.Run.next_le`: a run asks at most once beyond the last piece.
* `Cursor.agreeAt_factorFrom_of_limit`: under a limit the depth of the recursion is bounded by it.
* `descent_isBounded`: every reading ends within the bounds.
-/

namespace DeskCalculator

open Descent (Run Evaluation openAfter firstBeyond)

namespace Cursor

/-- On the way from one cursor to another, steps have asked for the pieces with these indices, in
this order. -/
inductive Asks (c : Cursor) : List Nat → Cursor → Prop
  /-- Nothing is asked for on the spot. -/
  | refl : Asks c [] c
  /-- A step asks for the next piece, whether it fails or not. -/
  | step {d : Cursor} {indices : List Nat} (h : Asks c indices d) :
      Asks c (indices ++ [d.next]) (cursorBehind d.advance)
  /-- Opening and closing levels asks for nothing. -/
  | levels {d : Cursor} {indices : List Nat} (h : Asks c indices d) (n : Nat) :
      Asks c indices { d with openLevels := n }

/-- The reading of a rule from a cursor ends within bounds. -/
structure IsBounded (lib : Elementary) (r : Rule) (c : Cursor) : Prop where
  /-- There is one run of the rule, with the outcome of the production, and at no moment of it more
  levels are open than the limit allows. -/
  run : ∃ es, (∀ es' out, Run lib (some nestingLimit) (.rule r) c es' out ↔
      es' = es ∧ out = r.production lib (Expression.factorWithin lib (some nestingLimit) c) c) ∧
    ∀ before, before <+: es → c.openLevels + openAfter 0 before ≤ nestingLimit
  /-- With one factor more than there are levels left, the recursion does not come to its end: what
  stands there in the place of a deeper factor makes no difference. -/
  depth : ∀ (deepest : Production Float) (depth : Nat), nestingLimit < c.openLevels + depth →
    r.production lib (Expression.factorFrom lib (some nestingLimit) deepest depth) c =
      r.production lib (Expression.factorWithin lib (some nestingLimit) c) c
  /-- No piece is asked for that has been asked for before, none twice, and nothing is asked for
  behind the end of the source. -/
  asks : ∃ indices, c.Asks indices
      (cursorBehind (r.production lib (Expression.factorWithin lib (some nestingLimit) c) c)) ∧
    indices.Nodup ∧ ∀ i ∈ indices, c.next ≤ i ∧ i ≤ c.pieces.size

end Cursor

variable {lib : Elementary} {limit? : Option Nat} {source : String} {limit m n : Nat}
  {c d : Cursor} {indices : List Nat}

/-- The pieces asked for are those from the next one on. -/
theorem Cursor.Asks.eq_range' (h : c.Asks indices d) :
    c.next ≤ d.next ∧ indices = List.range' c.next (d.next - c.next) := by
  induction h with
  | refl => exact ⟨Nat.le_refl _, by rw [Nat.sub_self]; rfl⟩
  | step _ ih =>
    obtain ⟨hle, rfl⟩ := ih
    rw [next_advance, Nat.succ_sub hle, List.range'_concat, Nat.one_mul, Nat.add_sub_cancel' hle]
    exact ⟨Nat.le_succ_of_le hle, rfl⟩
  | levels _ _ ih => exact ih

namespace Descent

variable {task : Task} {es : List Event} {r : Outcome}

/-- Under a limit no level is opened beyond it. If the levels are counted from another number than
that of the open ones, the limit moves with it. -/
theorem Run.firstBeyond_eq_none (h : Run lib (some limit) task c es r) {k : Nat}
    (hk : limit + k ≤ m + c.openLevels) : firstBeyond m k es = none := by
  induction h generalizing k with
  | refused | number | unexpected | missing | unraised | finished | stray => rfl
  | @factor c _ _ hlimit inner ih =>
    have hlt : c.openLevels < limit := by simpa using hlimit
    rw [firstBeyond_factor inner, if_neg (by omega)]
    exact ih (by rw [openLevels_openLevel]; omega)
  | unsigned_error _ _ ih | chain_error _ ih => exact ih hk
  | signed _ _ ha _ ih | raised _ ha _ ih | group_error _ ha _ ih | group _ ha _ _ _ ih
  | group_stray _ ha _ _ _ ih | unclosed _ ha _ _ ih | step_error _ _ ha _ ih =>
    exact ih (by rwa [Cursor.openLevels_of_advance_ok ha])
  | unsigned _ first _ ih ih' | chain first _ ih ih' =>
    rw [first.firstBeyond_append, ih hk, Option.none_or]
    exact ih' (by rwa [first.openLevels_of_ok])
  | step _ _ ha operand _ ih ih' =>
    have hlevels := Cursor.openLevels_of_advance_ok ha
    rw [operand.firstBeyond_append, ih (by rwa [hlevels]), Option.none_or]
    exact ih' (by rwa [operand.openLevels_of_ok, hlevels])

theorem Evaluation.firstBeyond_eq_none {out : Except SyntaxError Float}
    (h : Evaluation lib (some limit) source es out) : firstBeyond limit 0 es = none := by
  cases h with
  | unreadable h => rfl
  | evaluated h run => exact run.firstBeyond_eq_none (Nat.add_le_add_left (Nat.zero_le _) limit)

/-- A run goes on asking for pieces. -/
theorem Run.exists_asks (h : Run lib limit? task c es r) (hd : d.Asks indices c) :
    ∃ indices, d.Asks indices (cursorBehind r) :=
  h.preserves (P := fun c ↦ ∃ indices, d.Asks indices c) (fun _ _ ⟨_, h⟩ ↦ ⟨_, h.step⟩)
    (fun _ n ⟨_, h⟩ ↦ ⟨_, h.levels n⟩) ⟨_, hd⟩

/-- A run asks for nothing behind the end of the source. -/
theorem Run.next_le (h : Run lib limit? task c es r) (hc : c.Settled) (hm : c.pieces.size < m)
    (hnext : c.next ≤ m) : (cursorBehind r).next ≤ m := by
  have hrun := h.preserves (P := fun d ↦ d.Settled ∧ d.pieces = c.pieces ∧ d.next ≤ m)
    (fun d hpeek ⟨hd, hpieces, _⟩ ↦ ?_) (fun _ _ hd ↦ hd) ⟨hc, rfl, hnext⟩
  · exact hrun.2.2
  · have hle : d.next ≤ d.pieces.size :=
      Nat.not_lt.mp fun hlt ↦ hpeek (Option.map_eq_none_iff.mpr (hd.mpr hlt))
    refine ⟨hd.advance_settled, (Cursor.pieces_advance d).trans hpieces, ?_⟩
    rw [Cursor.next_advance]
    rw [hpieces] at hle
    omega

end Descent

namespace Cursor

theorem nestedBy_leave (f : Production Float) : nestedBy leave limit? f = nested limit? f := by
  funext c
  rw [nestedBy, nested]
  cases enterWithin limit? c with
  | error e d => rfl
  | ok _ d => cases hr : f d <;> simp only [hr, closeBy]

/-- A level of its own keeps the agreement of what is inside it. -/
theorem agreeAt_nested {f g : Production Float}
    (h : limit?.any (· ≤ n) = false → AgreeAt (n + 1) f g) :
    AgreeAt n (nested limit? f) (nested limit? g) := by
  have hnested : AgreeAt n (nested limit? f) (nestedBy leave limit? g) := .nested (fun _ _ ↦ rfl) h
  rwa [nestedBy_leave] at hnested

/-- Under a limit the recursion is no deeper than the levels that are left, and one more. -/
theorem agreeAt_factorFrom_of_limit (hn : n ≤ limit) {deepest deepest' : Production Float}
    {depth depth' : Nat} (hdepth : limit < n + depth) (hdepth' : limit < n + depth') :
    AgreeAt n (Expression.factorFrom lib (some limit) deepest depth)
      (Expression.factorFrom lib (some limit) deepest' depth') := by
  induction depth generalizing n depth' with
  | zero => omega
  | succ depth ih =>
    obtain ⟨depth', rfl⟩ : ∃ k, depth' = k + 1 := Nat.exists_eq_succ_of_ne_zero (by omega)
    refine agreeAt_nested fun hlimit ↦ .signed ?_
    have hlt : n < limit := by simpa using hlimit
    exact ih (Nat.succ_le_of_lt hlt) (by omega) (by omega)

/-- Within the limit, reading from a settled cursor is bounded. -/
theorem Settled.isBounded (hc : c.Settled) (hlevels : c.openLevels ≤ nestingLimit) (r : Rule) :
    c.IsBounded lib r := by
  obtain ⟨es, hrun⟩ := Descent.exists_run_of_settled lib (some nestingLimit) r hc
  refine ⟨⟨es, fun es' out ↦ ⟨fun h ↦ h.unique hrun, ?_⟩, fun before hbefore ↦ ?_⟩,
    fun deepest depth hdepth ↦ ?_, ?_⟩
  · rintro ⟨rfl, rfl⟩
    exact hrun
  · have hnone : firstBeyond (nestingLimit - c.openLevels) 0 es = none :=
      hrun.firstBeyond_eq_none (by omega)
    have hopen := (Descent.firstBeyond_eq_none_iff (Nat.zero_le _)).mp hnone before hbefore
    omega
  · -- A depth that is ample for both bounds leads from the one to the other.
    obtain ⟨ample, hle, hremaining⟩ : ∃ k, depth ≤ k ∧ c.remaining < k :=
      ⟨max depth (c.remaining + 1), by omega, by omega⟩
    have hfactor : Descent.Performs lib (some nestingLimit) ample (.rule .factor)
        (Expression.factorFrom lib (some nestingLimit) (fail .tooDeep) ample) :=
      Descent.performs_factorFrom _ _
    have hagree : AgreeAt c.openLevels
        (Expression.factorFrom lib (some nestingLimit) deepest depth)
        (Expression.factorFrom lib (some nestingLimit) (fail .tooDeep) ample) :=
      agreeAt_factorFrom_of_limit hlevels hdepth (by omega)
    obtain ⟨es', hample⟩ := Descent.performs_production hfactor r c hc hremaining
    rw [(hagree.production r c rfl).1]
    exact (hample.unique hrun).2
  · obtain ⟨indices, hasks⟩ := hrun.exists_asks .refl
    obtain ⟨hle, rfl⟩ := hasks.eq_range'
    refine ⟨_, hasks, List.nodup_range', fun i hi ↦ ?_⟩
    have hnext := hrun.next_le hc (m := max c.next (c.pieces.size + 1)) (by omega) (by omega)
    rw [List.mem_range'_1] at hi
    omega

end Cursor

/-- An evaluation asks for pieces from the first one on, and at most once beyond the last one. -/
theorem exists_asks_complete (lib : Elementary) (limit? : Option Nat) (source : String) :
    ∃ indices, (Cursor.before source).Asks indices
        (cursorBehind (Expression.complete limit? lib (Cursor.before source))) ∧
      indices.Nodup ∧ indices.length ≤ (pieces source).size + 1 := by
  have hfirst := (Cursor.Asks.refl (c := Cursor.before source)).step
  have hone : (cursorBehind (Cursor.before source).advance).next ≤ (pieces source).size + 1 := by
    rw [Cursor.next_advance]
    exact Nat.succ_le_succ (Nat.zero_le _)
  obtain ⟨⟨indices, hasks⟩, hnext⟩ : (∃ indices, (Cursor.before source).Asks indices
        (cursorBehind (Expression.complete limit? lib (Cursor.before source)))) ∧
      (cursorBehind (Expression.complete limit? lib (Cursor.before source))).next ≤
        (pieces source).size + 1 := by
    cases h : Cursor.ofSource source with
    | error e =>
      obtain ⟨d, ha⟩ := Cursor.ofSource_eq_error_iff.mp h
      rw [ha] at hfirst hone
      rw [Expression.complete, Descent.bind_of_error ha]
      exact ⟨⟨_, hfirst⟩, hone⟩
    | ok c =>
      have ha := Cursor.ofSource_eq_ok_iff.mp h
      have hsettled := Descent.settled_of_ofSource h
      have hpieces : c.pieces = pieces source := (Cursor.follows_of_advance_ok ha).pieces_eq
      obtain ⟨es, hrun⟩ := Descent.exists_run_of_settled lib limit? .expression hsettled
      rw [ha] at hfirst hone
      rw [Descent.complete_eq_completed h hrun, Descent.cursorBehind_completed]
      exact ⟨hrun.exists_asks hfirst,
        hrun.next_le hsettled (hpieces ▸ Nat.lt_succ_self _) hone⟩
  obtain ⟨-, rfl⟩ := hasks.eq_range'
  exact ⟨_, hasks, List.nodup_range', by rw [List.length_range']; exact hnext⟩

/-- **Every reading ends within bounds.** From every reachable cursor the reading of a rule is one
run, which is finite; at no moment of it are more factors open than the limit allows, so a recursion
that goes one factor deeper than the limit does not come to its end. The same is true of the
evaluation of every source. It asks at most once more than the source has pieces, and for none of
them twice. -/
theorem descent_isBounded (lib : Elementary) (source : String) :
    (∀ c : Cursor, c.Reachable lib source → ∀ r, c.IsBounded lib r) ∧
    (∃ es, (∀ es' out, Evaluation lib (some nestingLimit) source es' out ↔
        es' = es ∧ out = evaluate lib source) ∧
      ∀ before, before <+: es → openAfter 0 before ≤ nestingLimit) ∧
    ∃ indices, (Cursor.before source).Asks indices
        (cursorBehind (Expression.complete (some nestingLimit) lib (Cursor.before source))) ∧
      indices.Nodup ∧ indices.length ≤ (pieces source).size + 1 := by
  obtain ⟨es, hes⟩ := Descent.exists_evaluation lib (some nestingLimit) source
  refine ⟨fun c hc ↦ hc.settled.isBounded hc.openLevels_le, ⟨es, fun es' out ↦ ?_, ?_⟩,
    exists_asks_complete lib _ source⟩
  · refine ⟨fun h ↦ h.unique hes, ?_⟩
    rintro ⟨rfl, rfl⟩
    exact hes
  · exact (Descent.firstBeyond_eq_none_iff (Nat.zero_le _)).mp hes.firstBeyond_eq_none

/-- With a level of its own open and in front of a parenthesis that stays open, the reading fails
within the bounds, and so does the evaluation. -/
theorem descent_isBounded_unclosed : ∃ c : Cursor, c.Reachable .machine "(1 $ (2" ∧
    c.openLevels = 1 ∧ c.position = 5 ∧ c.IsBounded .machine .expression ∧
      evaluate .machine "(1 $ (2" = .error (.unexpectedToken "$" 3) := by
  have hstart : Cursor.Reachable .machine "(1 $ (2"
      ⟨DeskCalculator.pieces "(1 $ (2", 7, 1, some (.leftParen, 0), 0⟩ := .new (by decide +kernel)
  have hreachable := (((hstart.perform .enter).perform .advance).perform .advance).perform .advance
  exact ⟨_, hreachable, by decide +kernel, by decide +kernel,
    (descent_isBounded .machine _).1 _ hreachable .expression, by decide +kernel⟩

end DeskCalculator
