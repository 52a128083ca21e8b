import DeskCalculator.Proofs.Descent.Ahead

/-!
# What the limit on the nesting changes

The run without a limit shows in its trace how many factors are open at every moment. As long as
that number stays within a limit, the run under the limit is the same run. Otherwise the run under
the limit follows it up to the first opening beyond the limit, and fails there as too deep. Behind a
factor exactly the levels are open that were open before it, so what is closed does not count.

## Main definitions

* `Descent.openAfter`: the number of levels that are open after a trace.
* `Descent.firstBeyond`: the byte of the first opening beyond a limit.

## Main results

* `Descent.Run.of_within`, `Descent.Run.of_beyond`: the run under a limit, from the run without one.
* `Descent.evaluateWithin_some`: the evaluation under a limit, from the evaluation without one.
* `evaluate_eq_unlimited_or_tooDeep`: the same for the limit of the calculator.
-/

namespace DeskCalculator

namespace Descent

/-- The number of levels that are open after one more event. -/
def openStep : Nat → Event → Nat
  | k, .opened _ => k + 1
  | k, .closed => k - 1

/-- The number of levels that are open after a trace, when `k` levels are open before it. -/
def openAfter (k : Nat) (es : List Event) : Nat := es.foldl openStep k

/-- The byte of the first opening in a trace at which `limit` levels are open already, when `k`
levels are open before the trace. -/
def firstBeyond (limit : Nat) : Nat → List Event → Option Nat
  | _, [] => none
  | k, .opened p :: es => if limit ≤ k then some p else firstBeyond limit (k + 1) es
  | k, .closed :: es => firstBeyond limit (k - 1) es

theorem openAfter_append (k : Nat) (es es' : List Event) :
    openAfter k (es ++ es') = openAfter (openAfter k es) es' := List.foldl_append

theorem firstBeyond_append (limit k : Nat) (es es' : List Event) :
    firstBeyond limit k (es ++ es') =
      (firstBeyond limit k es).or (firstBeyond limit (openAfter k es) es') := by
  induction es generalizing k with
  | nil => rfl
  | cons e es ih =>
    cases e with
    | closed => exact ih (k - 1)
    | opened p =>
      simp only [List.cons_append, firstBeyond]
      split
      · rfl
      · exact ih (k + 1)

/-- No opening is beyond the limit exactly when at no moment more levels than that are open. -/
theorem firstBeyond_eq_none_iff {limit k : Nat} (hk : k ≤ limit) {es : List Event} :
    firstBeyond limit k es = none ↔ ∀ before, before <+: es → openAfter k before ≤ limit := by
  induction es generalizing k with
  | nil =>
    refine iff_of_true rfl fun before hbefore ↦ ?_
    rwa [List.prefix_nil.mp hbefore]
  | cons e es ih =>
    have hcons : (∀ before, before <+: e :: es → openAfter k before ≤ limit) ↔
        ∀ before, before <+: es → openAfter (openStep k e) before ≤ limit := by
      constructor
      · exact fun h before hbefore ↦ h (e :: before) (List.cons_prefix_cons.mpr ⟨rfl, hbefore⟩)
      · intro h before hbefore
        cases before with
        | nil => exact hk
        | cons e' before =>
          obtain ⟨rfl, htail⟩ := List.cons_prefix_cons.mp hbefore
          exact h before htail
    rw [hcons]
    cases e with
    | closed => exact ih (Nat.le_trans (Nat.sub_le k 1) hk)
    | opened p =>
      rw [firstBeyond, openStep]
      split
      next hle =>
        refine iff_of_false (Option.some_ne_none p) fun h ↦ ?_
        have hopen : k + 1 ≤ limit := h [] (List.nil_prefix)
        omega
      next hlt => exact ih (by omega)

/-- The first opening beyond the limit comes when as many levels as that are open, and at no moment
before it more levels are open. -/
theorem exists_of_firstBeyond_eq_some {limit k p : Nat} (hk : k ≤ limit) {es : List Event}
    (h : firstBeyond limit k es = some p) :
    ∃ before after, es = before ++ .opened p :: after ∧ firstBeyond limit k before = none ∧
      openAfter k before = limit := by
  induction es generalizing k with
  | nil => cases h
  | cons e es ih =>
    cases e with
    | closed =>
      obtain ⟨before, after, rfl, hnone, hopen⟩ := ih (Nat.le_trans (Nat.sub_le k 1) hk) h
      exact ⟨.closed :: before, after, rfl, hnone, hopen⟩
    | opened q =>
      rw [firstBeyond] at h
      split at h
      next hle =>
        obtain rfl := Option.some.inj h
        exact ⟨[], es, rfl, rfl, Nat.le_antisymm hk hle⟩
      next hlt =>
        obtain ⟨before, after, rfl, hnone, hopen⟩ := ih (by omega) h
        exact ⟨.opened q :: before, after, rfl, by rw [firstBeyond, if_neg hlt, hnone], hopen⟩

variable {lib : Elementary} {limit? : Option Nat} {limit : Nat} {task : Task} {c : Cursor}
  {es : List Event} {r : Outcome}

/-- Behind a run as many levels are open as before it. -/
theorem Run.openAfter_eq (h : Run lib limit? task c es r) (k : Nat) : openAfter k es = k := by
  induction h generalizing k with
  | refused | number | unexpected | missing | unraised | finished | stray => rfl
  | factor _ _ ih =>
    change openAfter (k + 1) (_ ++ [.closed]) = k
    rw [openAfter_append, ih]
    rfl
  | signed _ _ _ _ ih | unsigned_error _ _ ih | group_error _ _ _ ih | group _ _ _ _ _ ih
  | group_stray _ _ _ _ _ ih | unclosed _ _ _ _ ih | raised _ _ _ ih | chain_error _ ih
  | step_error _ _ _ _ ih => exact ih k
  | unsigned _ _ _ ih ih' | chain _ _ ih ih' | step _ _ _ _ _ ih ih' =>
    rw [openAfter_append, ih, ih']

/-- What a run does comes before what follows it, and is judged by itself. -/
theorem Run.firstBeyond_append (h : Run lib limit? task c es r) (k : Nat) (es' : List Event) :
    firstBeyond limit k (es ++ es') = (firstBeyond limit k es).or (firstBeyond limit k es') := by
  rw [Descent.firstBeyond_append, h.openAfter_eq]

/-- Below the limit, opening a level is all that a factor does to the count. -/
theorem firstBeyond_factor (h : Run lib limit? task c es r) (k p : Nat) :
    firstBeyond limit k (.opened p :: (es ++ [.closed])) =
      if limit ≤ k then some p else firstBeyond limit (k + 1) es := by
  rw [firstBeyond, h.firstBeyond_append, firstBeyond, firstBeyond, Option.or_none]

theorem some_any_eq_false {n k : Nat} (h : ¬ n ≤ k) : (some n).any (· ≤ k) = false := by
  simpa using h

/-- A run in which no factor is opened beyond a limit is the run under that limit. -/
theorem Run.of_within (h : Run lib none task c es r)
    (hes : firstBeyond limit c.openLevels es = none) : Run lib (some limit) task c es r := by
  induction h with
  | refused hlimit => cases hlimit
  | factor _ inner ih =>
    rw [firstBeyond_factor inner] at hes
    split at hes
    next => cases hes
    next hlt => exact .factor (some_any_eq_false hlt) (ih hes)
  | signed hpeek hsign ha _ ih =>
    exact .signed hpeek hsign ha (ih (by rwa [Cursor.openLevels_of_advance_ok ha]))
  | unsigned_error hpeek _ ih => exact .unsigned_error hpeek (ih hes)
  | unsigned hpeek base _ ih ih' =>
    rw [base.firstBeyond_append, Option.or_eq_none_iff] at hes
    exact .unsigned hpeek (ih hes.1) (ih' (by rw [base.openLevels_of_ok]; exact hes.2))
  | number hpeek ha => exact .number hpeek ha
  | group_error hpeek ha _ ih =>
    exact .group_error hpeek ha (ih (by rwa [Cursor.openLevels_of_advance_ok ha]))
  | group hpeek ha _ hclose hd ih =>
    exact .group hpeek ha (ih (by rwa [Cursor.openLevels_of_advance_ok ha])) hclose hd
  | group_stray hpeek ha _ hclose hd ih =>
    exact .group_stray hpeek ha (ih (by rwa [Cursor.openLevels_of_advance_ok ha])) hclose hd
  | unclosed hpeek ha _ hclose ih =>
    exact .unclosed hpeek ha (ih (by rwa [Cursor.openLevels_of_advance_ok ha])) hclose
  | unexpected hpeek ht => exact .unexpected hpeek ht
  | missing hpeek => exact .missing hpeek
  | unraised hpeek => exact .unraised hpeek
  | raised hpeek ha _ ih =>
    exact .raised hpeek ha (ih (by rwa [Cursor.openLevels_of_advance_ok ha]))
  | chain_error _ ih => exact .chain_error (ih hes)
  | chain first _ ih ih' =>
    rw [first.firstBeyond_append, Option.or_eq_none_iff] at hes
    exact .chain (ih hes.1) (ih' (by rw [first.openLevels_of_ok]; exact hes.2))
  | finished hpeek => exact .finished hpeek
  | step_error hpeek hop ha _ ih =>
    exact .step_error hpeek hop ha (ih (by rwa [Cursor.openLevels_of_advance_ok ha]))
  | step hpeek hop ha operand _ ih ih' =>
    rw [operand.firstBeyond_append, Option.or_eq_none_iff] at hes
    have hlevels := Cursor.openLevels_of_advance_ok ha
    exact .step hpeek hop ha (ih (by rw [hlevels]; exact hes.1))
      (ih' (by rw [operand.openLevels_of_ok, hlevels]; exact hes.2))
  | stray hpeek ht ha => exact .stray hpeek ht ha

/-- A run in which a factor is opened beyond a limit fails under that limit, where the first such
factor is opened. -/
theorem Run.of_beyond {p : Nat} (h : Run lib none task c es r)
    (hes : firstBeyond limit c.openLevels es = some p) :
    ∃ es' d, Run lib (some limit) task c es' (.error (.tooDeep p) d) := by
  induction h with
  | refused hlimit => cases hlimit
  | number | unexpected | missing | unraised | finished | stray => cases hes
  | factor _ inner ih =>
    rw [firstBeyond_factor inner] at hes
    split at hes
    next hle =>
      obtain rfl := Option.some.inj hes
      exact ⟨_, _, .refused (by simpa using hle)⟩
    next hlt =>
      obtain ⟨es', d, hrun⟩ := ih hes
      exact ⟨_, _, hrun.factor (some_any_eq_false hlt)⟩
  | signed hpeek hsign ha _ ih =>
    obtain ⟨es', d, hrun⟩ := ih (by rwa [Cursor.openLevels_of_advance_ok ha])
    exact ⟨_, _, hrun.signed hpeek hsign ha⟩
  | raised hpeek ha _ ih =>
    obtain ⟨es', d, hrun⟩ := ih (by rwa [Cursor.openLevels_of_advance_ok ha])
    exact ⟨_, _, hrun.raised hpeek ha⟩
  | unsigned_error hpeek _ ih =>
    obtain ⟨es', d, hrun⟩ := ih hes
    exact ⟨_, _, .unsigned_error hpeek hrun⟩
  | chain_error _ ih =>
    obtain ⟨es', d, hrun⟩ := ih hes
    exact ⟨_, _, .chain_error hrun⟩
  | group_error hpeek ha _ ih | group hpeek ha _ _ _ ih | group_stray hpeek ha _ _ _ ih
  | unclosed hpeek ha _ _ ih =>
    obtain ⟨es', d, hrun⟩ := ih (by rwa [Cursor.openLevels_of_advance_ok ha])
    exact ⟨_, _, .group_error hpeek ha hrun⟩
  | step_error hpeek hop ha _ ih =>
    obtain ⟨es', d, hrun⟩ := ih (by rwa [Cursor.openLevels_of_advance_ok ha])
    exact ⟨_, _, .step_error hpeek hop ha hrun⟩
  -- Of two parts, the first one goes beyond the limit, or it is the same run under the limit.
  | unsigned hpeek base _ ih ih' =>
    rw [base.firstBeyond_append, Option.or_eq_some_iff] at hes
    rcases hes with hes | ⟨hbase, hes⟩
    · obtain ⟨es', d, hrun⟩ := ih hes
      exact ⟨_, _, .unsigned_error hpeek hrun⟩
    · obtain ⟨es', d, hrun⟩ := ih' (by rwa [base.openLevels_of_ok])
      exact ⟨_, _, .unsigned hpeek (base.of_within hbase) hrun⟩
  | chain first _ ih ih' =>
    rw [first.firstBeyond_append, Option.or_eq_some_iff] at hes
    rcases hes with hes | ⟨hfirst, hes⟩
    · obtain ⟨es', d, hrun⟩ := ih hes
      exact ⟨_, _, .chain_error hrun⟩
    · obtain ⟨es', d, hrun⟩ := ih' (by rwa [first.openLevels_of_ok])
      exact ⟨_, _, .chain (first.of_within hfirst) hrun⟩
  | step hpeek hop ha operand _ ih ih' =>
    rw [operand.firstBeyond_append, Option.or_eq_some_iff] at hes
    have hlevels := Cursor.openLevels_of_advance_ok ha
    rw [← hlevels] at hes
    rcases hes with hes | ⟨hoperand, hes⟩
    · obtain ⟨es', d, hrun⟩ := ih hes
      exact ⟨_, _, .step_error hpeek hop ha hrun⟩
    · obtain ⟨es', d, hrun⟩ := ih' (by rwa [operand.openLevels_of_ok])
      exact ⟨_, _, .step hpeek hop ha (operand.of_within hoperand) hrun⟩

/-- Without a limit nothing is too deep. -/
theorem Run.ne_tooDeep (h : Run lib none task c es r) (p : Nat) (d : Cursor) :
    r ≠ .error (.tooDeep p) d := by
  induction h generalizing d with
  | refused hlimit => cases hlimit
  | number | group | unclosed | unexpected | missing | unraised | finished => exact nofun
  | @factor _ _ r _ _ ih =>
    cases r with
    | ok v d' => exact nofun
    | error e d' =>
      rintro ⟨⟩
      exact ih d' rfl
  | @signed _ _ _ _ _ r _ _ _ _ ih | @raised _ _ _ _ r _ _ _ ih =>
    cases r with
    | ok v d' => exact nofun
    | error e d' =>
      rintro ⟨⟩
      exact ih d rfl
  | unsigned_error _ _ ih | group_error _ _ _ ih | chain_error _ ih | step_error _ _ _ _ ih
  | unsigned _ _ _ _ ih | chain _ _ _ ih | step _ _ _ _ _ _ ih => exact ih d
  | group_stray _ _ _ _ ha | stray _ _ ha =>
    obtain ⟨q, qs, -, -, rfl⟩ := Cursor.stray_of_advance_error ha
    exact nofun

/-- The evaluation under a limit, from the trace of the evaluation without one. -/
theorem evaluateWithin_some (limit : Nat) {source : String} {out : Except SyntaxError Float}
    (h : Evaluation lib none source es out) :
    evaluateWithin (some limit) lib source =
      match firstBeyond limit 0 es with
      | none => out
      | some p => .error (.tooDeep p) := by
  cases h with
  | unreadable h => exact evaluateWithin_of_ofSource_error h
  | evaluated h run =>
    rw [← (Cursor.inStep_of_ofSource h).2.2.1]
    cases hes : firstBeyond limit _ es with
    | none => exact evaluateWithin_eq_verdict h (run.of_within hes)
    | some p =>
      obtain ⟨es', d, hrun⟩ := run.of_beyond hes
      exact evaluateWithin_eq_verdict h hrun

/-- A source that is not too deep has the evaluation that it has without a limit. -/
theorem evaluateWithin_some_of_ne_tooDeep {limit : Nat} {source : String}
    (h : ∀ p, evaluateWithin (some limit) lib source ≠ .error (.tooDeep p)) :
    evaluateWithin (some limit) lib source = evaluateWithin none lib source := by
  obtain ⟨es, hes⟩ := exists_evaluation lib none source
  rw [evaluateWithin_some limit hes] at h ⊢
  cases hbeyond : firstBeyond limit 0 es with
  | none => rfl
  | some p => exact absurd (by rw [hbeyond]) (h p)

/-- A source has one evaluation: the trace and the outcome are determined. -/
theorem Evaluation.unique {source : String} {es' : List Event} {out out' : Except SyntaxError Float}
    (h : Evaluation lib limit? source es out) (h' : Evaluation lib limit? source es' out') :
    es = es' ∧ out = out' := by
  refine ⟨?_, h.eq.trans h'.eq.symm⟩
  cases h with
  | unreadable h =>
    cases h' with
    | unreadable h' => rfl
    | evaluated h' run' => cases h.symm.trans h'
  | evaluated h run =>
    cases h' with
    | unreadable h' => cases h.symm.trans h'
    | evaluated h' run' =>
      obtain rfl := Except.ok.inj (h.symm.trans h')
      exact (run.unique run').1

/-- Without a limit no source is too deep. -/
theorem evaluateWithin_none_ne_tooDeep (source : String) (p : Nat) :
    evaluateWithin none lib source ≠ .error (.tooDeep p) := by
  obtain ⟨es, h⟩ := exists_evaluation lib none source
  generalize evaluateWithin none lib source = out at h
  cases h with
  | unreadable h =>
    obtain ⟨q, qs, -, -, rfl⟩ := Cursor.stray_of_ofSource_error h
    rintro ⟨⟩
  | @evaluated c _ r _ run =>
    cases r with
    | error e d =>
      rintro ⟨⟩
      exact run.ne_tooDeep p d rfl
    | ok v d =>
      rw [verdict]
      cases d.peek <;> rintro ⟨⟩

end Descent

open Descent in
/-- **What the limit on the nesting changes.** Every source has one run without a limit, whose
outcome is never that it is too deep. If at no moment of that run more than `nestingLimit` levels
are open, then the evaluation under the limit has the same outcome. Otherwise it is too deep where
the run first opens a level while `nestingLimit` levels are open. A factor leaves as many levels
open as it finds. -/
theorem evaluate_eq_unlimited_or_tooDeep (lib : Elementary) (source : String) :
    ∃ es, (∀ es' out, Evaluation lib none source es' out ↔
        es' = es ∧ out = evaluateWithin none lib source) ∧
      (∀ p, evaluateWithin none lib source ≠ .error (.tooDeep p)) ∧
      ((∀ before, before <+: es → openAfter 0 before ≤ nestingLimit) →
        evaluate lib source = evaluateWithin none lib source) ∧
      ((¬ ∀ before, before <+: es → openAfter 0 before ≤ nestingLimit) →
        ∃ before p after, es = before ++ .opened p :: after ∧
          (∀ b, b <+: before → openAfter 0 b ≤ nestingLimit) ∧
          openAfter 0 before = nestingLimit ∧ evaluate lib source = .error (.tooDeep p)) ∧
      ∀ c es' r, Run lib none (.rule .factor) c es' r → ∀ k, openAfter k es' = k := by
  obtain ⟨es, h⟩ := exists_evaluation lib none source
  have hlimited := evaluateWithin_some nestingLimit h
  refine ⟨es, fun es' out ↦ ⟨fun h' ↦ h'.unique h, ?_⟩, evaluateWithin_none_ne_tooDeep source,
    fun hwithin ↦ ?_, fun hbeyond ↦ ?_, fun c es' r hrun ↦ hrun.openAfter_eq⟩
  · rintro ⟨rfl, rfl⟩
    exact h
  · rw [evaluate, hlimited, (firstBeyond_eq_none_iff (Nat.zero_le _)).mpr hwithin]
  · rw [← firstBeyond_eq_none_iff (Nat.zero_le _)] at hbeyond
    obtain ⟨p, hp⟩ := Option.ne_none_iff_exists'.mp hbeyond
    obtain ⟨before, after, rfl, hbefore, hopen⟩ :=
      exists_of_firstBeyond_eq_some (Nat.zero_le _) hp
    rw [hp] at hlimited
    exact ⟨before, p, after, rfl, (firstBeyond_eq_none_iff (Nat.zero_le _)).mp hbefore, hopen,
      hlimited⟩

end DeskCalculator
