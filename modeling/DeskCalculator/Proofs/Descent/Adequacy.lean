import DeskCalculator.Proofs.Descent.Steps

/-!
# The productions run the descent

The productions bound their recursion: a chain by the steps that remain, a factor by a number of
factors inside factors. Both bounds are ample on a settled cursor, because every rule takes a token
before it comes back to a factor or to a further operator. So a production gives the outcome of the
run of its rule, and the bounds show nowhere. In particular what a production does at the end of its
bound plays no part in the result.

## Main definitions

* `Descent.Performs`: a production gives the outcomes of the runs of a task.
* `Descent.completed`, `Descent.verdict`: the outcome of an expression as the outcome of the whole
  source.
* `Descent.Evaluation`: the run over a whole source.

## Main results

* `Descent.performs_factorFrom`: the production of a factor runs the descent.
* `Descent.exists_evaluation`: the evaluation of every source is a run.
* `Descent.evaluateWithin_eq_verdict`: the run over a source gives its evaluation.
-/

namespace DeskCalculator

/-- The production of a rule, over the production of the factors inside it. -/
def Rule.production (lib : Elementary) (factor : Production Float) : Rule → Production Float
  | primary => Expression.primary lib factor
  | .factor => factor
  | chain .sum => Expression.expression lib factor
  | chain .product => Expression.term lib factor

namespace Descent

variable (lib : Elementary) (limit? : Option Nat)

/-- A production gives the outcomes of the runs of a task, from settled cursors with fewer than `n`
remaining steps. -/
def Performs (n : Nat) (task : Task) (f : Production Float) : Prop :=
  ∀ c : Cursor, c.Settled → c.remaining < n → ∃ es, Run lib limit? task c es (f c)

/-- The outcome for a source whose expression has the given outcome: nothing may follow it. -/
def verdict : Outcome → Except SyntaxError Float
  | .ok v c =>
    match c.peek with
    | none => .ok v
    | some t => .error (.trailingToken t.text c.position)
  | .error e _ => .error e

/-- The outcome for a source whose expression has the given outcome, with the cursor behind it. -/
def completed : Outcome → Outcome
  | .ok v c =>
    match c.peek with
    | none => .ok v c
    | some t => .error (.trailingToken t.text c.position) c
  | .error e c => .error e c

/-- The evaluation of a source, with the trace of the run over it. -/
inductive Evaluation (source : String) : List Event → Except SyntaxError Float → Prop
  /-- The source begins with a stray character. -/
  | unreadable {e} (h : Cursor.ofSource source = .error e) : Evaluation source [] (.error e)
  /-- The source begins with a token, or is empty. -/
  | evaluated {c es r} (h : Cursor.ofSource source = .ok c)
      (run : Run lib limit? (.rule .expression) c es r) : Evaluation source es (verdict r)

variable {lib limit?} {n : Nat} {f : Production Float}

theorem bind_of_ok {α β : Type} {x : Production α} {g : α → Production β} {a : α} {c d : Cursor}
    (h : x c = .ok a d) : (x >>= g) c = g a d := by
  simp only [bind, EStateM.bind, h]

theorem bind_of_error {α β : Type} {x : Production α} {g : α → Production β} {e : SyntaxError}
    {c d : Cursor} (h : x c = .error e d) : (x >>= g) c = .error e d := by
  simp only [bind, EStateM.bind, h]

theorem get_bind {β : Type} {g : Cursor → Production β} (c : Cursor) :
    ((get : Production Cursor) >>= g) c = g c c := rfl

/-- With enough steps, a chain of operators is read to its end. -/
theorem exists_run_chainFrom {l : Level} (hf : Performs lib limit? n (.rule l.operand) f)
    (steps : Nat) (left : Float) {c : Cursor} (hc : c.Settled) (hn : c.remaining < n)
    (hsteps : c.remaining ≤ steps) :
    ∃ es, Run lib limit? (.more l left) c es
      (Expression.chainFrom lib l.operator? f steps left c) := by
  induction steps generalizing left c with
  | zero =>
    have hpeek := hc.peek_eq_none (Nat.le_zero.mp hsteps)
    exact ⟨[], .finished (by rw [hpeek, Option.bind_none])⟩
  | succ steps ih =>
    rw [Expression.chainFrom, get_bind]
    cases hop : c.peek.bind l.operator? with
    | none => exact ⟨[], .finished hop⟩
    | some op =>
      obtain ⟨t, ht, hop⟩ := Option.bind_eq_some_iff.mp hop
      cases ha : c.advance with
      | error e d =>
        simp only [bind_of_error ha]
        exact ⟨[], .stray ht (by rw [takes_more, hop, Option.isSome_some]) ha⟩
      | ok _ d =>
        simp only [bind_of_ok ha]
        have hd := (Cursor.follows_of_advance_ok ha).settled hc
        have hlt := hc.remaining_lt ht ha
        obtain ⟨es, hrun⟩ := hf d hd (by omega)
        cases hr : f d with
        | error e d' =>
          rw [bind_of_error hr]
          rw [hr] at hrun
          exact ⟨es, .step_error ht hop ha hrun⟩
        | ok right d' =>
          rw [bind_of_ok hr]
          rw [hr] at hrun
          have hfollows : d.Follows d' := hrun.follows
          have hle := hfollows.remaining_le
          obtain ⟨es', hrest⟩ :=
            ih (op.apply lib left right) (hfollows.settled hd) (by omega) (by omega)
          exact ⟨es ++ es', .step ht hop ha hrun hrest⟩

theorem performs_chain {l : Level} (hf : Performs lib limit? n (.rule l.operand) f) :
    Performs lib limit? n (.rule (.chain l)) (Expression.chain lib l.operator? f) := by
  intro c hc hn
  obtain ⟨es, hrun⟩ := hf c hc hn
  rw [Expression.chain]
  cases hr : f c with
  | error e d =>
    rw [bind_of_error hr]
    rw [hr] at hrun
    exact ⟨es, .chain_error hrun⟩
  | ok v d =>
    rw [bind_of_ok hr, get_bind]
    rw [hr] at hrun
    have hfollows : c.Follows d := hrun.follows
    have hle := hfollows.remaining_le
    obtain ⟨es', hrest⟩ :=
      exists_run_chainFrom hf d.remaining v (hfollows.settled hc) (by omega) (Nat.le_refl _)
    exact ⟨es ++ es', .chain hrun hrest⟩

theorem performs_term (hf : Performs lib limit? n (.rule .factor) f) :
    Performs lib limit? n (.rule .term) (Expression.term lib f) :=
  performs_chain (l := .product) hf

theorem performs_expression (hf : Performs lib limit? n (.rule .factor) f) :
    Performs lib limit? n (.rule .expression) (Expression.expression lib f) :=
  performs_chain (l := .sum) (performs_term hf)

/-- A mark that is looked at is taken. -/
theorem eat_of_peek_eq {c : Cursor} {t : Token} (ht : ∀ v, t ≠ .number v) (h : c.peek = some t) :
    Cursor.eat t c = match c.advance with
      | .ok _ d => .ok true d
      | .error e d => .error e d := by
  have halike : c.peek.any (·.alike t) = true := by
    rw [h]
    cases t with
    | number v => exact absurd rfl (ht v)
    | _ => rfl
  exact if_pos halike

/-- A mark that is not looked at is not taken. -/
theorem eat_of_peek_ne {c : Cursor} {t : Token} (ht : ∀ v, t ≠ .number v) (h : c.peek ≠ some t) :
    Cursor.eat t c = .ok false c := by
  apply Cursor.eat_of_not_alike
  cases hpeek : c.peek with
  | none => rfl
  | some s =>
    rw [hpeek] at h
    cases t with
    | number v => exact absurd rfl (ht v)
    | _ => cases s <;> simp_all [Token.alike]

theorem performs_exponent (hf : Performs lib limit? n (.rule .factor) f) (base : Float) :
    Performs lib limit? (n + 1) (.exponent base) (Expression.raised lib f base) := by
  intro c hc hn
  rw [Expression.raised]
  by_cases hpeek : c.peek = some .caret
  · have heat := eat_of_peek_eq (by simp) hpeek
    cases ha : c.advance with
    | error e d =>
      rw [ha] at heat
      rw [bind_of_error heat]
      exact ⟨[], .stray hpeek (by simp [takes_exponent]) ha⟩
    | ok _ d =>
      rw [ha] at heat
      rw [bind_of_ok heat, if_pos rfl]
      have hlt := hc.remaining_lt hpeek ha
      obtain ⟨es, hrun⟩ := hf d ((Cursor.follows_of_advance_ok ha).settled hc) (by omega)
      have hraised : Run lib limit? (.exponent base) c es _ := hrun.raised hpeek ha
      cases hr : f d with
      | error e d' =>
        rw [bind_of_error hr]
        exact ⟨es, by rwa [hr] at hraised⟩
      | ok v d' =>
        rw [bind_of_ok hr]
        exact ⟨es, by rwa [hr] at hraised⟩
  · rw [bind_of_ok (eat_of_peek_ne (by simp) hpeek)]
    exact ⟨[], .unraised hpeek⟩

theorem exists_run_group (hf : Performs lib limit? n (.rule .factor) f) {c : Cursor}
    (hc : c.Settled) (hn : c.remaining < n + 1) (hpeek : c.peek = some .leftParen) :
    ∃ es, Run lib limit? (.rule .primary) c es (Expression.group lib f c) := by
  rw [Expression.group]
  cases ha : c.advance with
  | error e d =>
    rw [bind_of_error ha]
    exact ⟨[], .stray hpeek takes_leftParen ha⟩
  | ok _ d =>
    rw [bind_of_ok ha]
    have hlt := hc.remaining_lt hpeek ha
    obtain ⟨es, hrun⟩ :=
      performs_expression hf d ((Cursor.follows_of_advance_ok ha).settled hc) (by omega)
    cases hr : Expression.expression lib f d with
    | error e d' =>
      rw [bind_of_error hr]
      rw [hr] at hrun
      exact ⟨es, .group_error hpeek ha hrun⟩
    | ok v d' =>
      rw [bind_of_ok hr]
      rw [hr] at hrun
      by_cases hclose : d'.peek = some .rightParen
      · have heat := eat_of_peek_eq (by simp) hclose
        cases hd : d'.advance with
        | error e d'' =>
          rw [hd] at heat
          rw [bind_of_error heat]
          exact ⟨es, .group_stray hpeek ha hrun hclose hd⟩
        | ok _ d'' =>
          rw [hd] at heat
          rw [bind_of_ok heat]
          exact ⟨es, .group hpeek ha hrun hclose hd⟩
      · rw [bind_of_ok (eat_of_peek_ne (by simp) hclose)]
        exact ⟨es, .unclosed hpeek ha hrun hclose⟩

theorem performs_primary (hf : Performs lib limit? n (.rule .factor) f) :
    Performs lib limit? (n + 1) (.rule .primary) (Expression.primary lib f) := by
  intro c hc hn
  rw [Expression.primary, get_bind]
  cases hpeek : c.peek with
  | none => exact ⟨[], .missing hpeek⟩
  | some t =>
    cases t with
    | number v =>
      cases ha : c.advance with
      | error e d =>
        simp only [bind_of_error ha]
        exact ⟨[], .stray hpeek (takes_number v) ha⟩
      | ok _ d =>
        simp only [bind_of_ok ha]
        exact ⟨[], .number hpeek ha⟩
    | leftParen => exact exists_run_group hf hc hn hpeek
    | _ => exact ⟨[], .unexpected hpeek rfl⟩

theorem performs_unit (hf : Performs lib limit? n (.rule .factor) f) :
    Performs lib limit? (n + 1) .unit (Expression.signed lib f) := by
  intro c hc hn
  rw [Expression.signed, get_bind]
  cases hsign : c.peek.bind Token.sign? with
  | some sign =>
    obtain ⟨t, ht, hsign⟩ := Option.bind_eq_some_iff.mp hsign
    cases ha : c.advance with
    | error e d =>
      simp only [bind_of_error ha]
      exact ⟨[], .stray ht (by rw [takes_unit, hsign, Option.isSome_some]) ha⟩
    | ok _ d =>
      simp only [bind_of_ok ha]
      have hlt := hc.remaining_lt ht ha
      obtain ⟨es, hrun⟩ := hf d ((Cursor.follows_of_advance_ok ha).settled hc) (by omega)
      have hsigned := hrun.signed ht hsign ha
      cases hr : f d with
      | error e d' =>
        rw [bind_of_error hr]
        exact ⟨es, by rwa [hr] at hsigned⟩
      | ok v d' =>
        rw [bind_of_ok hr]
        exact ⟨es, by rwa [hr] at hsigned⟩
  | none =>
    obtain ⟨es, hbase⟩ := performs_primary hf c hc hn
    cases hr : Expression.primary lib f c with
    | error e d =>
      simp only [bind_of_error hr]
      rw [hr] at hbase
      exact ⟨es, .unsigned_error hsign hbase⟩
    | ok v d =>
      simp only [bind_of_ok hr]
      rw [hr] at hbase
      have hfollows : c.Follows d := hbase.follows
      have hle := hfollows.remaining_le
      obtain ⟨es', hexp⟩ := performs_exponent hf v d (hfollows.settled hc) (by omega)
      exact ⟨es ++ es', .unsigned hsign hbase hexp⟩

theorem nested_of_limit {c : Cursor} (h : limit?.any (· ≤ c.openLevels) = true) :
    Cursor.nested limit? f c = .error (.tooDeep c.position) c := by
  rw [Cursor.nested, Cursor.enterWithin, if_pos h]

theorem nested_of_not_limit {c : Cursor} (h : limit?.any (· ≤ c.openLevels) = false) :
    Cursor.nested limit? f c = closeLevel (f (openLevel c)) := by
  rw [Cursor.nested, Cursor.enterWithin, if_neg (Bool.eq_false_iff.mp h)]
  simp only [openLevel]
  cases f { c with openLevels := c.openLevels + 1 } <;> rfl

/-- A factor that may nest as deep as there are steps left runs the descent, whatever is put in the
place of the factors that are nested deeper. -/
theorem performs_factorFrom (deepest : Production Float) (n : Nat) :
    Performs lib limit? n (.rule .factor) (Expression.factorFrom lib limit? deepest n) := by
  induction n with
  | zero => exact fun c _ hn ↦ absurd hn (Nat.not_lt_zero _)
  | succ n ih =>
    intro c hc hn
    change ∃ es, Run lib limit? _ c es
      (Cursor.nested limit? (Expression.signed lib (Expression.factorFrom lib limit? deepest n)) c)
    cases hlimit : limit?.any (· ≤ c.openLevels) with
    | true =>
      rw [nested_of_limit hlimit]
      exact ⟨[], .refused hlimit⟩
    | false =>
      rw [nested_of_not_limit hlimit]
      obtain ⟨es, hrun⟩ := performs_unit ih (openLevel c) hc hn
      exact ⟨_, hrun.factor hlimit⟩

/-- Over a production that runs factors, the production of every rule runs the rule. -/
theorem performs_production (hf : Performs lib limit? n (.rule .factor) f) :
    ∀ r : Rule, Performs lib limit? n (.rule r) (r.production lib f)
  | .primary => fun c hc hn ↦ performs_primary hf c hc (Nat.lt_succ_of_lt hn)
  | .factor => hf
  | .chain .product => performs_term hf
  | .chain .sum => performs_expression hf

/-- Every production that a cursor offers runs its rule from a settled cursor. -/
theorem exists_run_of_settled (lib : Elementary) (limit? : Option Nat) (r : Rule) {c : Cursor}
    (hc : c.Settled) :
    ∃ es, Run lib limit? (.rule r) c es
      (r.production lib (Expression.factorWithin lib limit? c) c) :=
  performs_production (performs_factorFrom _ (c.remaining + 1)) r c hc (Nat.lt_succ_self _)

/-- The first step over a source settles the cursor. -/
theorem settled_of_ofSource {source : String} {c : Cursor} (h : Cursor.ofSource source = .ok c) :
    c.Settled := by
  have ha := Cursor.ofSource_eq_ok_iff.mp h
  have hbefore : (Cursor.before source).next = 0 := rfl
  unfold Cursor.advance at ha
  split at ha
  · next hnone =>
    have hsize := Array.getElem?_eq_none_iff.mp hnone
    cases ha
    exact iff_of_true rfl (Nat.lt_succ_of_le hsize)
  · next piece hpiece =>
    have hsize := (Array.getElem?_eq_some_iff.mp hpiece).1
    split at ha
    · cases ha
      exact iff_of_false (Option.some_ne_none _) (Nat.not_lt.mpr hsize)
    · cases ha

/-- A source that begins with a stray character has the error of its first step. -/
theorem evaluateWithin_of_ofSource_error {source : String} {e : SyntaxError}
    (h : Cursor.ofSource source = .error e) : evaluateWithin limit? lib source = .error e := by
  obtain ⟨d, ha⟩ := Cursor.ofSource_eq_error_iff.mp h
  rw [evaluateWithin, Expression.complete, bind_of_error ha]

/-- The run of the expression that a source begins with gives the outcome of the source. -/
theorem complete_eq_completed {source : String} {c : Cursor} {es : List Event} {r : Outcome}
    (h : Cursor.ofSource source = .ok c) (run : Run lib limit? (.rule .expression) c es r) :
    Expression.complete limit? lib (Cursor.before source) = completed r := by
  obtain ⟨es', hrun⟩ :=
    exists_run_of_settled lib limit? .expression (settled_of_ofSource h)
  obtain ⟨-, rfl⟩ := run.unique hrun
  rw [Expression.complete, bind_of_ok (Cursor.ofSource_eq_ok_iff.mp h), get_bind, Rule.production]
  cases hr : Expression.expression lib (Expression.factorWithin lib limit? c) c with
  | error e d => rw [bind_of_error hr, completed]
  | ok v d =>
    rw [bind_of_ok hr, get_bind, completed]
    cases hpeek : d.peek <;> rfl

@[simp] theorem cursorBehind_completed (r : Outcome) :
    cursorBehind (completed r) = cursorBehind r := by
  cases r with
  | error e c => rfl
  | ok v c =>
    rw [completed]
    cases c.peek <;> rfl

/-- The run of the expression that a source begins with gives the evaluation of the source. -/
theorem evaluateWithin_eq_verdict {source : String} {c : Cursor} {es : List Event} {r : Outcome}
    (h : Cursor.ofSource source = .ok c) (run : Run lib limit? (.rule .expression) c es r) :
    evaluateWithin limit? lib source = verdict r := by
  rw [evaluateWithin, complete_eq_completed h run]
  cases r with
  | error e d => rfl
  | ok v d =>
    rw [completed, verdict]
    cases d.peek <;> rfl

/-- The evaluation of a source is what its runs give. -/
theorem Evaluation.eq {source : String} {es : List Event} {out : Except SyntaxError Float}
    (h : Evaluation lib limit? source es out) : out = evaluateWithin limit? lib source := by
  cases h with
  | unreadable h => rw [evaluateWithin_of_ofSource_error h]
  | evaluated h run => rw [evaluateWithin_eq_verdict h run]

/-- Every source is evaluated by a run. -/
theorem exists_evaluation (lib : Elementary) (limit? : Option Nat) (source : String) :
    ∃ es, Evaluation lib limit? source es (evaluateWithin limit? lib source) := by
  cases h : Cursor.ofSource source with
  | error e =>
    rw [evaluateWithin_of_ofSource_error h]
    exact ⟨[], .unreadable h⟩
  | ok c =>
    obtain ⟨es, hrun⟩ :=
      exists_run_of_settled lib limit? .expression (settled_of_ofSource h)
    rw [evaluateWithin_eq_verdict h hrun]
    exact ⟨es, .evaluated h hrun⟩

end Descent

end DeskCalculator
