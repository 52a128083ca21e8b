import DeskCalculator.Proofs.Grammar.Derivation

/-!
# The grammar is unambiguous

A rule *owns* the operators that could go on with one of its derivations. If neither of two texts
begins with an operator that the rule owns, then a derivation in front of the one and a derivation
in front of the other spell the same tokens only if they are the same derivation. In particular a
token sequence has at most one derivation.

## Main definitions

* `Rule.owns`: whether a token would go on with a derivation of a rule.
* `Rule.Stops`: a token sequence that does not.

## Main results

* `Derivation.eq_of_append`: a derivation is determined by a text that it begins.
-/

namespace DeskCalculator

namespace Rule

/-- Whether a derivation of a rule goes on when this token follows it. -/
def owns : Rule → Token → Bool
  | primary, _ => false
  | factor, t => t = .caret
  | chain .product, t => t = .caret || t.product?.isSome
  | chain .sum, t => t.binary?.isSome

/-- A token sequence that does not begin with a token which the rule owns. -/
def Stops (r : Rule) (ts : List Token) : Prop := ∀ t ∈ ts.head?, r.owns t = false

/-- A chain owns its operators, and what its operands own. -/
theorem owns_chain (l : Level) (t : Token) :
    (chain l).owns t = (l.operand.owns t || (l.operator? t).isSome) := by
  cases l <;> cases t <;> rfl

/-- An operand does not own the operators of its chain. -/
theorem owns_operand {l : Level} {t : Token} (h : (l.operator? t).isSome) :
    l.operand.owns t = false := by
  revert h
  cases l <;> cases t <;>
    simp [Level.operand, Level.operator?, Rule.owns, Token.sum?, Token.product?, Token.binary?]

theorem stops_nil (r : Rule) : r.Stops [] := by simp [Stops]

theorem stops_cons {r : Rule} {t : Token} {ts : List Token} :
    r.Stops (t :: ts) ↔ r.owns t = false := by simp [Stops]

theorem stops_rightParen (r : Rule) (ts : List Token) : r.Stops (.rightParen :: ts) := by
  rw [stops_cons]
  rcases r with _ | _ | _ | _ <;> rfl

theorem stops_primary (ts : List Token) : primary.Stops ts := fun _ _ ↦ rfl

end Rule

/-- A primary begins with a number or a parenthesis, and not with a sign. -/
theorem Derivation.sign?_eq_none (d : Derivation .primary) {t : Token} {ts us : List Token}
    (h : d.tokens ++ us = t :: ts) : t.sign? = none := by
  cases d with
  | number value =>
    rw [tokens, List.singleton_append, List.cons.injEq] at h
    exact h.1 ▸ rfl
  | group inner =>
    rw [tokens, List.cons_append, List.cons.injEq] at h
    exact h.1 ▸ rfl

/-- Behind an operand of a chain the chain goes on with one of its own operators, or it ends. -/
theorem Continuation.stops_operand {l : Level} (k : Continuation l) {ts : List Token}
    (h : (Rule.chain l).Stops ts) : l.operand.Stops (k.tokens ++ ts) := by
  cases k with
  | done =>
    intro t ht
    have howns := h t (by simpa only [tokens, List.nil_append] using ht)
    rw [Rule.owns_chain, Bool.or_eq_false_iff] at howns
    exact howns.1
  | step _ mark op hop operand more =>
    rw [tokens, List.cons_append, Rule.stops_cons]
    exact Rule.owns_operand (by rw [hop, Option.isSome_some])

mutual

/-- A derivation is determined by a text that it begins, if what follows it in the text does not go
on with it. -/
theorem Derivation.eq_of_append {r : Rule} (d d' : Derivation r) {ts ts' : List Token}
    (hs : r.Stops ts) (hs' : r.Stops ts') (h : d.tokens ++ ts = d'.tokens ++ ts') :
    d = d' ∧ ts = ts' := by
  match d, d' with
  | .number value, .number value' =>
    simp only [Derivation.tokens, List.singleton_append, List.cons.injEq, Token.number.injEq] at h
    exact ⟨by rw [h.1], h.2⟩
  | .number value, .group inner => simp [Derivation.tokens] at h
  | .group inner, .number value => simp [Derivation.tokens] at h
  | .group inner, .group inner' =>
    simp only [Derivation.tokens, List.cons_append, List.append_assoc, List.cons.injEq,
      true_and] at h
    obtain ⟨rfl, hrest⟩ := inner.eq_of_append inner' (Rule.stops_rightParen _ _)
      (Rule.stops_rightParen _ _) h
    exact ⟨rfl, List.tail_eq_of_cons_eq hrest⟩
  | .signed mark sign hm operand, .signed mark' sign' hm' operand' =>
    simp only [Derivation.tokens, List.cons_append, List.cons.injEq] at h
    obtain ⟨rfl, h⟩ := h
    obtain rfl := Option.some.inj (hm.symm.trans hm')
    obtain ⟨rfl, rfl⟩ := operand.eq_of_append operand' hs hs' h
    exact ⟨rfl, rfl⟩
  | .signed mark sign hm operand, .plain base =>
    simp only [Derivation.tokens, List.cons_append] at h
    cases (base.sign?_eq_none h.symm).symm.trans hm
  | .plain base, .signed mark sign hm operand =>
    simp only [Derivation.tokens, List.cons_append] at h
    cases (base.sign?_eq_none h).symm.trans hm
  | .signed mark sign hm operand, .power base exponent =>
    simp only [Derivation.tokens, List.cons_append, List.append_assoc] at h
    cases (base.sign?_eq_none h.symm).symm.trans hm
  | .power base exponent, .signed mark sign hm operand =>
    simp only [Derivation.tokens, List.cons_append, List.append_assoc] at h
    cases (base.sign?_eq_none h).symm.trans hm
  | .plain base, .plain base' =>
    simp only [Derivation.tokens] at h
    obtain ⟨rfl, rfl⟩ := base.eq_of_append base' (Rule.stops_primary _) (Rule.stops_primary _) h
    exact ⟨rfl, rfl⟩
  | .plain base, .power base' exponent =>
    simp only [Derivation.tokens, List.append_assoc] at h
    obtain ⟨-, rfl⟩ := base.eq_of_append base' (Rule.stops_primary _) (Rule.stops_primary _) h
    rw [List.cons_append, Rule.stops_cons] at hs
    cases hs
  | .power base exponent, .plain base' =>
    simp only [Derivation.tokens, List.append_assoc] at h
    obtain ⟨-, rfl⟩ := base.eq_of_append base' (Rule.stops_primary _) (Rule.stops_primary _) h
    rw [List.cons_append, Rule.stops_cons] at hs'
    cases hs'
  | .power base exponent, .power base' exponent' =>
    simp only [Derivation.tokens, List.append_assoc] at h
    obtain ⟨rfl, hexponent⟩ :=
      base.eq_of_append base' (Rule.stops_primary _) (Rule.stops_primary _) h
    obtain ⟨rfl, rfl⟩ :=
      exponent.eq_of_append exponent' hs hs' (List.tail_eq_of_cons_eq hexponent)
    exact ⟨rfl, rfl⟩
  | .chain l first more, .chain _ first' more' =>
    simp only [Derivation.tokens, List.append_assoc] at h
    obtain ⟨rfl, hmore⟩ := first.eq_of_append first' (more.stops_operand hs)
      (more'.stops_operand hs') h
    obtain ⟨rfl, rfl⟩ := more.eq_of_append more' hs hs' hmore
    exact ⟨rfl, rfl⟩

/-- What follows the first operand of a chain is determined by a text that it begins. -/
theorem Continuation.eq_of_append {l : Level} (k k' : Continuation l) {ts ts' : List Token}
    (hs : (Rule.chain l).Stops ts) (hs' : (Rule.chain l).Stops ts')
    (h : k.tokens ++ ts = k'.tokens ++ ts') : k = k' ∧ ts = ts' := by
  match k, k' with
  | .done _, .done _ => exact ⟨rfl, by simpa only [Continuation.tokens, List.nil_append] using h⟩
  | .done _, .step _ mark op hop operand more =>
    obtain rfl : ts = (Continuation.step _ mark op hop operand more).tokens ++ ts' := h
    rw [Continuation.tokens, List.cons_append, Rule.stops_cons, Rule.owns_chain, hop] at hs
    simp at hs
  | .step _ mark op hop operand more, .done _ =>
    obtain rfl : (Continuation.step _ mark op hop operand more).tokens ++ ts = ts' := h
    rw [Continuation.tokens, List.cons_append, Rule.stops_cons, Rule.owns_chain, hop] at hs'
    simp at hs'
  | .step _ mark op hop operand more, .step _ mark' op' hop' operand' more' =>
    simp only [Continuation.tokens, List.cons_append, List.append_assoc, List.cons.injEq] at h
    obtain ⟨rfl, h⟩ := h
    obtain rfl := Option.some.inj (hop.symm.trans hop')
    obtain ⟨rfl, hmore⟩ := operand.eq_of_append operand' (more.stops_operand hs)
      (more'.stops_operand hs') h
    obtain ⟨rfl, rfl⟩ := more.eq_of_append more' hs hs' hmore
    exact ⟨rfl, rfl⟩

end

/-- A token sequence has at most one derivation. -/
theorem Derivation.eq_of_tokens_eq {r : Rule} {d d' : Derivation r} (h : d.tokens = d'.tokens) :
    d = d' :=
  (d.eq_of_append d' (Rule.stops_nil r) (Rule.stops_nil r) (by rw [h])).1

end DeskCalculator
