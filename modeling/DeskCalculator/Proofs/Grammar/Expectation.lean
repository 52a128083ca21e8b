import DeskCalculator.Proofs.Grammar.Unambiguous

/-!
# What may come next

At each place between two tokens of an expression it is settled whether an operand or an operator
comes next, and how many groups are open. A token changes this *expectation*, or it is not expected
at all. Precedence plays no part in it: the operators are alike, and a sign leaves everything as it
is. The tokens of a derivation lead from expecting an operand to expecting an operator, with the
same groups open.

## Main definitions

* `Expectation`: whether an operand or an operator comes next, with the number of open groups.
* `Expectation.step`, `Expectation.after`: the expectation after a token, and after several.
* `AwaitsOperand`, `EndsOperand`: the last of the tokens decides what is expected.

## Main results

* `Derivation.after_tokens`: what is expected behind a derivation.
* `Expectation.fits_of_after`: the expectation, read off the last token and the numbers of
  parentheses.
-/

namespace DeskCalculator

/-- What comes next in an expression. -/
inductive Expectation where
  /-- An operand, with this number of groups open. -/
  | operand (groups : Nat)
  /-- An operator or the end of a group, with this number of groups open. -/
  | operator (groups : Nat)
deriving DecidableEq

/-- Token sequences behind which an operand is missing: they are empty, or end in an operator or an
opening parenthesis. -/
def AwaitsOperand (ts : List Token) : Prop :=
  ∀ t ∈ ts.getLast?, t = .leftParen ∨ t.binary?.isSome

/-- Token sequences that end in a number or a closing parenthesis. -/
def EndsOperand (ts : List Token) : Prop :=
  ∃ t ∈ ts.getLast?, t = .rightParen ∨ ∃ v, t = .number v

namespace Expectation

/-- What is expected after a token, if the token is expected. -/
def step : Expectation → Token → Option Expectation
  | operand k, .number _ => some (operator k)
  | operand k, .leftParen => some (operand (k + 1))
  | operand k, t => if t.sign?.isSome then some (operand k) else none
  | operator k, .rightParen => if k = 0 then none else some (operator (k - 1))
  | operator k, t => if t.binary?.isSome then some (operand k) else none

/-- What is expected after several tokens, if each of them is expected. -/
def after (e : Expectation) (ts : List Token) : Option Expectation := ts.foldlM step e

theorem after_nil (e : Expectation) : e.after [] = some e := rfl

theorem after_cons (e : Expectation) (t : Token) (ts : List Token) :
    e.after (t :: ts) = (e.step t).bind (·.after ts) := List.foldlM_cons

theorem after_append (e : Expectation) (ts us : List Token) :
    e.after (ts ++ us) = (e.after ts).bind (·.after us) := List.foldlM_append

theorem after_singleton (e : Expectation) (t : Token) : e.after [t] = e.step t := by
  rw [after_cons]
  cases e.step t <;> rfl

/-- After an expected beginning, the rest is expected of what came of it. -/
theorem after_append_of_eq {e e' : Expectation} {ts us : List Token} (h : e.after ts = some e') :
    e.after (ts ++ us) = e'.after us := by
  rw [after_append, h, Option.bind_some]

theorem step_operand_sign {t : Token} (h : t.sign?.isSome) (k : Nat) :
    (operand k).step t = some (operand k) := by
  cases t <;> first | rfl | cases h

theorem step_operator_binary {t : Token} (h : t.binary?.isSome) (k : Nat) :
    (operator k).step t = some (operand k) := by
  cases t <;> first | rfl | cases h

/-- Outside of all groups, only an operator is expected behind an operand. -/
theorem step_operator_zero_eq_none {t : Token} (h : Rule.expression.owns t = false) :
    (operator 0).step t = none := by
  cases t <;> first | rfl | cases h

/-- In a group, only an operator and the closing parenthesis are expected behind an operand. -/
theorem step_operator_eq_none {t : Token} (h : Rule.expression.owns t = false)
    (hclose : some t ≠ some .rightParen) (k : Nat) : (operator k).step t = none := by
  cases t <;> first | rfl | exact absurd rfl hclose | cases h

end Expectation

/-- An operator of a level is an operator. -/
theorem Level.isSome_binary? {l : Level} {t : Token} (h : (l.operator? t).isSome) :
    t.binary?.isSome := by
  cases l <;> cases t <;> first | rfl | cases h

mutual

/-- Behind a derivation an operator is expected, with the groups open that were open before it. -/
theorem Derivation.after_tokens {r : Rule} (d : Derivation r) (k : Nat) :
    (Expectation.operand k).after d.tokens = some (.operator k) := by
  match d with
  | .number value => rfl
  | .group inner =>
    rw [Derivation.tokens, Expectation.after_cons, Expectation.step, Option.bind_some,
      Expectation.after_append_of_eq (inner.after_tokens (k + 1))]
    rfl
  | .signed mark sign hm operand =>
    rw [Derivation.tokens, Expectation.after_cons,
      Expectation.step_operand_sign (by rw [hm, Option.isSome_some]), Option.bind_some]
    exact operand.after_tokens k
  | .plain base => exact base.after_tokens k
  | .power base exponent =>
    rw [Derivation.tokens, Expectation.after_append_of_eq (base.after_tokens k),
      Expectation.after_cons, Expectation.step_operator_binary rfl, Option.bind_some]
    exact exponent.after_tokens k
  | .chain l first more =>
    rw [Derivation.tokens, Expectation.after_append_of_eq (first.after_tokens k)]
    exact more.after_tokens k

/-- Behind the rest of a chain an operator is expected, as before it. -/
theorem Continuation.after_tokens {l : Level} (c : Continuation l) (k : Nat) :
    (Expectation.operator k).after c.tokens = some (.operator k) := by
  match c with
  | .done _ => rfl
  | .step _ mark op hop operand more =>
    have hbinary : mark.binary?.isSome := l.isSome_binary? (by rw [hop, Option.isSome_some])
    rw [Continuation.tokens, Expectation.after_cons, Expectation.step_operator_binary hbinary,
      Option.bind_some, Expectation.after_append_of_eq (operand.after_tokens k)]
    exact more.after_tokens k

end

/-- What an expectation tells about the tokens before it. -/
def Expectation.Fits : Expectation → List Token → Prop
  | operand k, ts => AwaitsOperand ts ∧ ts.count .leftParen = ts.count .rightParen + k
  | operator k, ts => EndsOperand ts ∧ ts.count .leftParen = ts.count .rightParen + k

namespace Expectation

/-- What a token can change: a number ends an operand, a parenthesis opens or closes a group, a sign
leaves the operand missing, and an operator makes one missing. -/
theorem step_cases {e e' : Expectation} {t : Token} (h : e.step t = some e') :
    (∃ k v, e = operand k ∧ t = .number v ∧ e' = operator k) ∨
    (∃ k, e = operand k ∧ t = .leftParen ∧ e' = operand (k + 1)) ∨
    (∃ k, e = operator (k + 1) ∧ t = .rightParen ∧ e' = operator k) ∨
    (∃ k, (e = operand k ∨ e = operator k) ∧ t.binary?.isSome ∧ e' = operand k) := by
  cases e with
  | operand k =>
    cases t with
    | number v => exact .inl ⟨k, v, rfl, rfl, (Option.some.inj h).symm⟩
    | leftParen => exact .inr (.inl ⟨k, rfl, rfl, (Option.some.inj h).symm⟩)
    | plus | minus => exact .inr (.inr (.inr ⟨k, .inl rfl, rfl, (Option.some.inj h).symm⟩))
    | star | slash | caret | rightParen => cases h
  | operator k =>
    cases t with
    | rightParen =>
      by_cases hk : k = 0
      · rw [hk] at h
        cases h
      · obtain ⟨j, rfl⟩ := Nat.exists_eq_succ_of_ne_zero hk
        exact .inr (.inr (.inl ⟨j, rfl, rfl, (Option.some.inj h).symm⟩))
    | plus | minus | star | slash | caret =>
      exact .inr (.inr (.inr ⟨k, .inr rfl, rfl, (Option.some.inj h).symm⟩))
    | number v | leftParen => cases h

theorem count_paren_of_isSome_binary? {t : Token} (h : t.binary?.isSome) :
    [t].count .leftParen = 0 ∧ [t].count .rightParen = 0 := by
  cases t <;> first | exact ⟨rfl, rfl⟩ | cases h

/-- A token that is expected changes what is told as it changes the tokens. -/
theorem Fits.step {e e' : Expectation} {ts : List Token} {t : Token} (h : e.Fits ts)
    (hstep : e.step t = some e') : e'.Fits (ts ++ [t]) := by
  have hlast : (ts ++ [t]).getLast? = some t := List.getLast?_concat
  obtain ⟨k, v, rfl, rfl, rfl⟩ | ⟨k, rfl, rfl, rfl⟩ | ⟨k, rfl, rfl, rfl⟩ | ⟨k, he, ht, rfl⟩ :=
    step_cases hstep
  · exact ⟨⟨_, hlast, .inr ⟨v, rfl⟩⟩, by simpa [List.count_append] using h.2⟩
  · refine ⟨fun u hu ↦ .inl (Option.some.inj (hu.symm.trans hlast)), ?_⟩
    have hcount := h.2
    simp [List.count_append, hcount, Nat.add_assoc]
  · refine ⟨⟨_, hlast, .inl rfl⟩, ?_⟩
    have hcount := h.2
    simp [List.count_append, hcount]
    omega
  · have hcount : ts.count .leftParen = ts.count .rightParen + k := by
      rcases he with rfl | rfl <;> exact h.2
    refine ⟨fun u hu ↦ .inr (Option.some.inj (hu.symm.trans hlast) ▸ ht), ?_⟩
    obtain ⟨hleft, hright⟩ := count_paren_of_isSome_binary? ht
    rw [List.count_append, List.count_append, hleft, hright, hcount]
    rfl

/-- What is expected after some tokens can be read off the last of them and the parentheses. -/
theorem Fits.after {e e' : Expectation} {ts us : List Token} (h : e.Fits ts)
    (hafter : e.after us = some e') : e'.Fits (ts ++ us) := by
  induction us generalizing e ts with
  | nil =>
    obtain rfl := Option.some.inj hafter
    rwa [List.append_nil]
  | cons t us ih =>
    rw [after_cons, Option.bind_eq_some_iff] at hafter
    obtain ⟨e₁, hstep, hafter⟩ := hafter
    have hfits := ih (h.step hstep) hafter
    rwa [List.append_assoc, List.singleton_append] at hfits

theorem fits_of_after {e : Expectation} {ts : List Token} (h : (operand 0).after ts = some e) :
    e.Fits ts := by
  have hnil : (operand 0).Fits [] := ⟨by simp [AwaitsOperand], rfl⟩
  exact hnil.after h

end Expectation

/-- Tokens behind which an operand is missing do not end in one. -/
theorem AwaitsOperand.not_endsOperand {ts : List Token} (h : AwaitsOperand ts) :
    ¬ EndsOperand ts := by
  rintro ⟨t, ht, ht'⟩
  rcases ht' with rfl | ⟨v, rfl⟩
  · rcases h _ ht with h | h <;> cases h
  · rcases h _ ht with h | h <;> cases h

end DeskCalculator
