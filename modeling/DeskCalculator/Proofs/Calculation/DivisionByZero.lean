import DeskCalculator.Proofs.Keypad.Formulas
import DeskCalculator.Proofs.Number.Absorption

/-!
# Divisions by zero

Only the result of a calculation is checked. A division by zero anywhere in it gives an infinity or
what is not a number, and this reaches the result unless it is absorbed on the way. So the failures
of calculations that have a value are told by what is *kept* up to the result: the parts of the
computation above which nothing absorbs. A division by zero among them makes the calculation fail.
In `1/(1/0)` the infinity is absorbed, and the calculation has the result 0.

## Main definitions

* `Computation`: the operations of an expression, as a tree.
* `Computation.parts`, `Computation.kept`: the computations inside a computation, and those of them
  whose values reach its value.
* `Computation.dividesByZero`, `Computation.IsFault`: a division by zero, and any place where
  finite operands have no finite value.

## Main results

* `Derivation.value_computation`: the value of an expression is that of its computation.
* `Computation.isFinite_iff_kept`: a computation has a finite value unless it keeps a fault.
* `calculate_fails_iff_keepsFault`: a calculation fails if it keeps a division by zero.
* `oneOverInfinity_isAbsorbed`: a division by zero that is not kept.
-/

namespace DeskCalculator

/-- The operations of an expression. Parentheses are gone, and chains are folded from the left. -/
inductive Computation where
  /-- A number that is given. -/
  | number (value : Float)
  /-- A sign before an operand. -/
  | signed (sign : Sign) (operand : Computation)
  /-- An operator between two operands. -/
  | binary (op : BinaryOperator) (left right : Computation)

namespace Computation

/-- The value of a computation. -/
def value (lib : Elementary) : Computation → Float
  | number value => value
  | signed sign operand => sign.apply (operand.value lib)
  | binary op left right => op.apply lib (left.value lib) (right.value lib)

/-- The operands of the last operation. -/
def operands : Computation → List Computation
  | number _ => []
  | signed _ operand => [operand]
  | binary _ left right => [left, right]

/-- All computations inside a computation, itself included. -/
def parts : Computation → List Computation
  | number value => [number value]
  | signed sign operand => signed sign operand :: operand.parts
  | binary op left right => binary op left right :: (left.parts ++ right.parts)

/-- The parts of a computation above which no operator absorbs its operands. -/
def kept (lib : Elementary) : Computation → List Computation
  | number value => [number value]
  | signed sign operand => signed sign operand :: operand.kept lib
  | binary op left right =>
    binary op left right ::
      if op.absorbs lib (left.value lib) (right.value lib) then []
      else left.kept lib ++ right.kept lib

/-- Whether the last operation is a division, and its divisor is zero, of either sign. -/
def dividesByZero (lib : Elementary) : Computation → Bool
  | binary .divide _ right => right.value lib == 0
  | number _ | signed .. | binary .. => false

/-- Where a value stops being finite: the operands are finite, and the value is not. -/
structure IsFault (lib : Elementary) (c : Computation) : Prop where
  /-- The value is not finite. -/
  isFinite_value : (c.value lib).isFinite = false
  /-- The operands are finite, if there are any. -/
  isFinite_operands : ∀ o ∈ c.operands, (o.value lib).isFinite = true

variable {lib : Elementary} {c d left right : Computation} {op : BinaryOperator}

/-! ### What is kept -/

theorem mem_kept_self (lib : Elementary) (c : Computation) : c ∈ c.kept lib := by
  cases c <;> exact List.mem_cons_self

/-- What is kept of an operator: the operator, and what is kept of its operands unless they are
absorbed. -/
theorem mem_kept_binary_iff : d ∈ (binary op left right).kept lib ↔ d = binary op left right ∨
    op.absorbs lib (left.value lib) (right.value lib) = false ∧
      (d ∈ left.kept lib ∨ d ∈ right.kept lib) := by
  rw [kept, List.mem_cons]
  split <;> simp_all

/-- Where nothing is absorbed, all parts are kept. -/
theorem kept_eq_parts (h : ∀ op left right, binary op left right ∈ c.parts →
    op.absorbs lib (left.value lib) (right.value lib) = false) : c.kept lib = c.parts := by
  induction c with
  | number => rfl
  | signed sign operand ih =>
    rw [kept, parts, ih fun op l r hmem ↦ h op l r (List.mem_cons_of_mem _ hmem)]
  | binary op left right ihl ihr =>
    have hleft := ihl fun op l r hmem ↦
      h op l r (List.mem_cons_of_mem _ (List.mem_append_left _ hmem))
    have hright := ihr fun op l r hmem ↦
      h op l r (List.mem_cons_of_mem _ (List.mem_append_right _ hmem))
    rw [kept, parts, h op left right List.mem_cons_self, hleft, hright]
    rfl

/-- A division by zero has no finite value. -/
theorem isFinite_of_dividesByZero (h : c.dividesByZero lib = true) :
    (c.value lib).isFinite = false := by
  match c with
  | binary .divide left right => exact isFinite_div_zero h

/-- What is kept and is not finite lets no value above it be finite. -/
theorem isFinite_of_mem_kept (h : d ∈ c.kept lib) (hd : (d.value lib).isFinite = false) :
    (c.value lib).isFinite = false := by
  induction c with
  | number value =>
    obtain rfl := List.mem_singleton.mp h
    exact hd
  | signed sign operand ih =>
    obtain rfl | h := List.mem_cons.mp h
    · exact hd
    · rw [value, isFinite_sign]
      exact ih h
  | binary op left right ihl ihr =>
    obtain rfl | ⟨habsorbs, h⟩ := mem_kept_binary_iff.mp h
    · exact hd
    · have hoperands : ¬ ((left.value lib).isFinite ∧ (right.value lib).isFinite) := by
        rintro ⟨hl, hr⟩
        obtain h | h := h
        · exact Bool.false_ne_true ((ihl h).symm.trans hl)
        · exact Bool.false_ne_true ((ihr h).symm.trans hr)
      refine Bool.eq_false_iff.mpr fun hfinite ↦ ?_
      exact Bool.false_ne_true (habsorbs.symm.trans (absorbs_iff.mpr ⟨hoperands, hfinite⟩))

/-- A value that is not finite comes from a fault that is kept. -/
theorem exists_fault_of_isFinite (h : (c.value lib).isFinite = false) :
    ∃ d ∈ c.kept lib, d.IsFault lib := by
  induction c with
  | number value => exact ⟨_, mem_kept_self lib _, h, nofun⟩
  | signed sign operand ih =>
    rw [value, isFinite_sign] at h
    obtain ⟨d, hd, hfault⟩ := ih h
    exact ⟨d, List.mem_cons_of_mem _ hd, hfault⟩
  | binary op left right ihl ihr =>
    -- Either the operator is the fault, or an operand is not finite already. That one is not
    -- absorbed, since the value is not finite either.
    by_cases hoperands : (left.value lib).isFinite ∧ (right.value lib).isFinite
    · refine ⟨_, mem_kept_self lib _, h, fun o ho ↦ ?_⟩
      obtain rfl | ho := List.mem_cons.mp ho
      · exact hoperands.1
      · obtain rfl := List.mem_singleton.mp ho
        exact hoperands.2
    · have habsorbs : op.absorbs lib (left.value lib) (right.value lib) = false :=
        Bool.eq_false_iff.mpr fun habsorbs ↦
          Bool.false_ne_true (h.symm.trans (absorbs_iff.mp habsorbs).2)
      obtain ⟨d, hd, hfault⟩ : ∃ d, (d ∈ left.kept lib ∨ d ∈ right.kept lib) ∧ d.IsFault lib := by
        rcases not_and_or.mp hoperands with hl | hr
        · obtain ⟨d, hd, hfault⟩ := ihl (Bool.eq_false_iff.mpr hl)
          exact ⟨d, .inl hd, hfault⟩
        · obtain ⟨d, hd, hfault⟩ := ihr (Bool.eq_false_iff.mpr hr)
          exact ⟨d, .inr hd, hfault⟩
      exact ⟨d, mem_kept_binary_iff.mpr (.inr ⟨habsorbs, hd⟩), hfault⟩

/-- A computation has a finite value exactly if it keeps no fault. -/
theorem isFinite_iff_kept : (c.value lib).isFinite = false ↔ ∃ d ∈ c.kept lib, d.IsFault lib :=
  ⟨exists_fault_of_isFinite, fun ⟨_, hd, hfault⟩ ↦ isFinite_of_mem_kept hd hfault.isFinite_value⟩

end Computation

/-! ### Computations of expressions -/

mutual

/-- The operations of a derivation. -/
def Derivation.computation {r : Rule} : Derivation r → Computation
  | .number value => .number value
  | .group inner => inner.computation
  | .signed _ sign _ operand => .signed sign operand.computation
  | .plain base => base.computation
  | .power base exponent => .binary .power base.computation exponent.computation
  | .chain _ first more => more.computation first.computation

/-- The operations that follow, behind the operations of what stands before them. -/
def Continuation.computation {l : Level} : Continuation l → Computation → Computation
  | .done _, left => left
  | .step _ _ op _ operand more, left =>
    more.computation (.binary op left operand.computation)

end

mutual

/-- The value of a derivation is that of its operations. -/
theorem Derivation.value_computation (lib : Elementary) {r : Rule} (d : Derivation r) :
    d.computation.value lib = d.value lib := by
  match d with
  | .number value => rfl
  | .group inner => exact inner.value_computation lib
  | .signed _ sign _ operand =>
    exact congrArg sign.apply (operand.value_computation lib)
  | .plain base => exact base.value_computation lib
  | .power base exponent =>
    exact congrArg₂ (BinaryOperator.power.apply lib) (base.value_computation lib)
      (exponent.value_computation lib)
  | .chain l first more =>
    rw [Derivation.computation, more.value_computation lib, first.value_computation lib]
    rfl

theorem Continuation.value_computation (lib : Elementary) {l : Level} (k : Continuation l)
    (left : Computation) : (k.computation left).value lib = k.value lib (left.value lib) := by
  match k with
  | .done _ => rfl
  | .step _ mark op hop operand more =>
    rw [Continuation.computation, more.value_computation lib, Computation.value,
      operand.value_computation lib]
    rfl

end

variable {lib : Elementary} {source : String} {v : Float}

/-- The calculation of an expression with a value fails exactly if the value is not finite. -/
theorem calculate_fails_iff (h : evaluate lib source = .ok v) :
    (∃ e, calculate lib source = .error e) ↔ v.isFinite = false := by
  rw [calculate_of_evaluate h, ensureFinite]
  by_cases hv : v.isFinite <;> simp [hv]

/-- **A division by zero makes a calculation fail if it is kept.** An expression with a value fails
to be calculated exactly if its computation keeps a fault. If it keeps a division by zero, then it
fails, and the failure has its value. In particular any division by zero makes it fail where no
operator absorbs its operands. -/
theorem calculate_fails_iff_keepsFault (lib : Elementary) (source : String) (v : Float)
    (h : evaluate lib source = .ok v) :
    ∃ d : Derivation .expression, Spells (pieces source).toList d.tokens ∧
      d.computation.value lib = v ∧
      ((∃ e, calculate lib source = .error e) ↔ ∃ c ∈ d.computation.kept lib, c.IsFault lib) ∧
      ((∃ c ∈ d.computation.kept lib, c.dividesByZero lib = true) →
        calculate lib source = .error (.notFinite v)) ∧
      ((∀ op left right, .binary op left right ∈ d.computation.parts →
          op.absorbs lib (left.value lib) (right.value lib) = false) →
        (∃ c ∈ d.computation.parts, c.dividesByZero lib = true) →
          calculate lib source = .error (.notFinite v)) := by
  obtain ⟨d, hs, -, rfl⟩ := exists_derivation_of_evaluateWithin h
  have hvalue := d.value_computation lib
  have hkept : (∃ c ∈ d.computation.kept lib, c.dividesByZero lib = true) →
      calculate lib source = .error (.notFinite (d.value lib)) := by
    rintro ⟨c, hc, hzero⟩
    rw [calculate_of_evaluate h]
    refine ensureFinite_eq_error_iff.mpr ⟨?_, rfl⟩
    rw [← hvalue]
    exact Computation.isFinite_of_mem_kept hc (Computation.isFinite_of_dividesByZero hzero)
  refine ⟨d, hs, hvalue, ?_, hkept, fun habsorbs hzero ↦ ?_⟩
  · rw [calculate_fails_iff h, ← hvalue]
    exact Computation.isFinite_iff_kept
  · rw [← Computation.kept_eq_parts habsorbs] at hzero
    exact hkept hzero

/-- In `2*(3/0)` the division by zero is kept. -/
theorem calculate_fails_iff_keepsFault_product :
    evaluate .machine "2*(3/0)" = .ok (2 * (3 / 0)) ∧
      calculate .machine "2*(3/0)" = .error (.notFinite (2 * (3 / 0))) := by
  have h : evaluate .machine "2*(3/0)" = .ok (2 * (3 / 0)) := by decide +kernel
  obtain ⟨d, hs, -, -, hkept, -⟩ := calculate_fails_iff_keepsFault .machine _ _ h
  have hproduct : Spells (pieces "2*(3/0)").toList (Derivation.ofOperator .star .multiply rfl
      (.number 2) (.group (.ofOperator .slash .divide rfl (.number 3) (.number 0)))).tokens := by
    rw [Spells]
    decide +kernel
  obtain rfl := Derivation.eq_of_tokens_eq
    (List.map_injective_iff.mpr (Option.some_injective Token) (hs.symm.trans hproduct))
  exact ⟨h, hkept (by decide +kernel)⟩

/-- In `1/(1/0)` there is a division by zero, but the infinity is absorbed. -/
theorem oneOverInfinity_isAbsorbed : ∃ d : Derivation .expression,
    Spells (pieces "1/(1/0)").toList d.tokens ∧ d.nesting ≤ nestingLimit ∧
      (∃ c ∈ d.computation.parts, c.dividesByZero .machine = true) ∧
      evaluate .machine "1/(1/0)" = .ok 0 ∧ calculate .machine "1/(1/0)" = .ok 0 := by
  refine ⟨.ofOperator .slash .divide rfl (.number 1)
    (.group (.ofOperator .slash .divide rfl (.number 1) (.number 0))), ?_, ?_, ?_, ?_, ?_⟩
  · rw [Spells]
    decide +kernel
  · decide +kernel
  · decide +kernel
  · decide +kernel
  · decide +kernel

end DeskCalculator
