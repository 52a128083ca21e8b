import DeskCalculator.Proofs.Descent.Reachable

/-!
# Productions give back their levels

A production closes all levels that it opens, on every way out of it. This is shown for the
productions as they run, from any cursor at all: two productions *agree* at a number of open levels
if they do the same on all cursors with so many open levels, and leave as many open. Every rule
keeps the agreement of the factors inside it, and a factor agrees if what it nests agrees one level
further in. A production that agrees with itself gives back its levels.

Closing a level when none is open does nothing. The productions do not depend on that: if levels are
closed in another way, which may do anything at all when no level is open, the productions stay as
they are.

## Main definitions

* `Cursor.AgreeAt`: two productions do the same at a number of open levels, and give them back.
* `Cursor.readBy`: the productions with another way to close a level.
* `Cursor.enterTimes`: levels opened one after the other.
* `Cursor.Balanced`: what a cursor and the productions on it do with levels.

## Main results

* `Cursor.AgreeAt.production`: a rule keeps the agreement of the factors inside it.
* `Cursor.agreeAt_readBy`: how a level is closed plays no part where none is open.
* `Cursor.Reachable.levels_balanced`: the levels of a reachable cursor are balanced.
-/

namespace DeskCalculator.Cursor

open Descent (bind_of_ok bind_of_error nested_of_limit nested_of_not_limit Outcome openLevel
  closeLevel)

/-- Two productions do the same on every cursor with `n` open levels, and leave `n` levels open,
whether they fail or not. -/
def AgreeAt {α : Type} (n : Nat) (f g : Production α) : Prop :=
  ∀ c : Cursor, c.openLevels = n → f c = g c ∧ (cursorBehind (f c)).openLevels = n

/-- As `Descent.closeLevel`, with another way to close a level. -/
def closeBy (close : Cursor → Cursor) : Outcome → Outcome
  | .ok v c => .ok v (close c)
  | .error e c => .error e (close c)

/-- As `Cursor.nested`, with another way to close the level. -/
def nestedBy (close : Cursor → Cursor) (limit? : Option Nat) (inner : Production Float) :
    Production Float := fun c =>
  match enterWithin limit? c with
  | .error e c => .error e c
  | .ok _ c => closeBy close (inner c)

/-- As `Expression.factorFrom`, with another way to close a level. -/
def factorFromBy (lib : Elementary) (close : Cursor → Cursor) (limit? : Option Nat)
    (deepest : Production Float) : Nat → Production Float
  | 0 => deepest
  | depth + 1 => nestedBy close limit?
      (Expression.signed lib (factorFromBy lib close limit? deepest depth))

/-- Reads a rule as the productions of a cursor do, with another way to close a level. -/
def readBy (lib : Elementary) (close : Cursor → Cursor) (r : Rule) : Production Float := fun c =>
  r.production lib
    (factorFromBy lib close (some nestingLimit) (fail .tooDeep) (c.remaining + 1)) c

/-- Opens levels one after the other. -/
def enterTimes : Nat → Production Unit
  | 0 => pure ()
  | k + 1 => do
    enter
    enterTimes k

/-- What a cursor and the productions on it do with levels. -/
structure Balanced (lib : Elementary) (c : Cursor) : Prop where
  /-- No more levels are open than are allowed. -/
  openLevels_le : c.openLevels ≤ nestingLimit
  /-- A production leaves as many levels open as it finds, whether it fails or not. -/
  openLevels_behind : ∀ f ∈ productions lib, (cursorBehind (f c)).openLevels = c.openLevels
  /-- As many levels as are left up to the limit can be opened one after the other, on the cursor as
  well as behind a production, and the one after them is refused. -/
  enterTimes_eq : ∀ d, d = c ∨ (∃ f ∈ productions lib, d = cursorBehind (f c)) → ∀ k,
    enterTimes k d =
      if k ≤ nestingLimit - c.openLevels then .ok () { d with openLevels := c.openLevels + k }
      else .error (.tooDeep d.position) { d with openLevels := nestingLimit }
  /-- What it does to close a level where none is open plays no part in a production. -/
  readBy_eq : ∀ close : Cursor → Cursor, (∀ d, 0 < d.openLevels → close d = d.leave) →
    c.expression lib = readBy lib close .expression c ∧ c.term lib = readBy lib close .term c ∧
      c.factor lib = readBy lib close .factor c

variable {lib : Elementary} {source : String} {limit? : Option Nat} {n : Nat} {c : Cursor}
  {f g : Production Float} {close : Cursor → Cursor}

/-! ### Agreement is kept by the rules -/

section Steps

variable {α β : Type}

theorem AgreeAt.bind {x y : Production α} {u v : α → Production β} (hx : AgreeAt n x y)
    (hu : ∀ a, AgreeAt n (u a) (v a)) : AgreeAt n (x >>= u) (y >>= v) := by
  intro c hc
  obtain ⟨heq, hlevels⟩ := hx c hc
  cases hr : x c with
  | error e d =>
    rw [hr] at heq hlevels
    rw [bind_of_error hr, bind_of_error heq.symm]
    exact ⟨rfl, hlevels⟩
  | ok a d =>
    rw [hr] at heq hlevels
    rw [bind_of_ok hr, bind_of_ok heq.symm]
    exact hu a d hlevels

theorem agreeAt_pure (a : α) : AgreeAt n (pure a) (pure a) := fun _ hc ↦ ⟨rfl, hc⟩

theorem agreeAt_get : AgreeAt n (get : Production Cursor) get := fun _ hc ↦ ⟨rfl, hc⟩

theorem agreeAt_fail (e : Nat → SyntaxError) : AgreeAt n (fail e : Production α) (fail e) :=
  fun _ hc ↦ ⟨rfl, hc⟩

theorem agreeAt_advance : AgreeAt n advance advance :=
  fun c hc ↦ ⟨rfl, (openLevels_advance c).trans hc⟩

theorem agreeAt_eat (t : Token) : AgreeAt n (eat t) (eat t) := by
  refine fun c hc ↦ ⟨rfl, ?_⟩
  rw [cursorBehind_eat]
  split
  · exact (openLevels_advance c).trans hc
  · exact hc

end Steps

theorem AgreeAt.chainFrom (h : AgreeAt n f g) (operator? : Token → Option BinaryOperator)
    (steps : Nat) (left : Float) : AgreeAt n (Expression.chainFrom lib operator? f steps left)
      (Expression.chainFrom lib operator? g steps left) := by
  induction steps generalizing left with
  | zero => exact agreeAt_pure left
  | succ steps ih =>
    rw [Expression.chainFrom, Expression.chainFrom]
    refine agreeAt_get.bind fun c ↦ ?_
    split
    · exact agreeAt_pure left
    · exact agreeAt_advance.bind fun _ ↦ h.bind fun right ↦ ih _

theorem AgreeAt.chain (h : AgreeAt n f g) (operator? : Token → Option BinaryOperator) :
    AgreeAt n (Expression.chain lib operator? f) (Expression.chain lib operator? g) :=
  h.bind fun left ↦ agreeAt_get.bind fun c ↦ h.chainFrom operator? c.remaining left

theorem AgreeAt.expression (h : AgreeAt n f g) :
    AgreeAt n (Expression.expression lib f) (Expression.expression lib g) :=
  AgreeAt.chain (h.chain Token.product?) Token.sum?

theorem AgreeAt.group (h : AgreeAt n f g) :
    AgreeAt n (Expression.group lib f) (Expression.group lib g) := by
  refine agreeAt_advance.bind fun _ ↦ h.expression.bind fun value ↦ ?_
  refine (agreeAt_eat .rightParen).bind fun closed ↦ ?_
  split
  · exact agreeAt_pure value
  · exact agreeAt_fail .unclosedGroup

theorem AgreeAt.primary (h : AgreeAt n f g) :
    AgreeAt n (Expression.primary lib f) (Expression.primary lib g) := by
  refine agreeAt_get.bind fun c ↦ ?_
  split
  · exact agreeAt_advance.bind fun _ ↦ agreeAt_pure _
  · exact h.group
  · exact agreeAt_fail _
  · exact agreeAt_fail _

theorem AgreeAt.raised (h : AgreeAt n f g) (base : Float) :
    AgreeAt n (Expression.raised lib f base) (Expression.raised lib g base) := by
  refine (agreeAt_eat .caret).bind fun raised ↦ ?_
  split
  · exact h.bind fun exponent ↦ agreeAt_pure _
  · exact agreeAt_pure base

theorem AgreeAt.signed (h : AgreeAt n f g) :
    AgreeAt n (Expression.signed lib f) (Expression.signed lib g) := by
  refine agreeAt_get.bind fun c ↦ ?_
  split
  · exact agreeAt_advance.bind fun _ ↦ h.bind fun operand ↦ agreeAt_pure _
  · exact h.primary.bind fun base ↦ h.raised base

/-- A rule keeps the agreement of the factors inside it. -/
theorem AgreeAt.production (h : AgreeAt n f g) :
    ∀ r : Rule, AgreeAt n (r.production lib f) (r.production lib g)
  | .primary => h.primary
  | .factor => h
  | .chain .sum => h.expression
  | .chain .product => h.chain Token.product?

/-! ### Agreement of factors -/

/-- Where a level is open it plays no part what closing does where none is open. -/
theorem closeBy_eq (hclose : ∀ d, 0 < d.openLevels → close d = d.leave) {r : Outcome}
    (h : 0 < (cursorBehind r).openLevels) : closeBy close r = closeLevel r := by
  cases r with
  | ok v d | error e d => rw [closeBy, closeLevel, hclose d h]

/-- A level of its own keeps the agreement of what is inside it, and nothing is inside it at the
limit. -/
theorem AgreeAt.nested (hclose : ∀ d, 0 < d.openLevels → close d = d.leave)
    (h : limit?.any (· ≤ n) = false → AgreeAt (n + 1) f g) :
    AgreeAt n (nested limit? f) (nestedBy close limit? g) := by
  intro c hc
  cases hlimit : limit?.any (· ≤ c.openLevels) with
  | true =>
    rw [nested_of_limit hlimit, nestedBy, enterWithin, if_pos hlimit]
    exact ⟨rfl, hc⟩
  | false =>
    obtain ⟨heq, hlevels⟩ := h (hc ▸ hlimit) (openLevel c) (congrArg (· + 1) hc)
    have hinner : nestedBy close limit? g c = closeBy close (g (openLevel c)) := by
      rw [nestedBy, enterWithin, if_neg (Bool.eq_false_iff.mp hlimit)]
      rfl
    rw [nested_of_not_limit hlimit, hinner, ← heq,
      closeBy_eq hclose (hlevels ▸ Nat.succ_pos n), Descent.cursorBehind_closeLevel, leave, hlevels,
      Nat.add_sub_cancel]
    exact ⟨rfl, rfl⟩

theorem agreeAt_factorFrom (hclose : ∀ d, 0 < d.openLevels → close d = d.leave)
    {deepest : Production Float} (hdeepest : ∀ n, AgreeAt n deepest deepest) (depth n : Nat) :
    AgreeAt n (Expression.factorFrom lib limit? deepest depth)
      (factorFromBy lib close limit? deepest depth) := by
  induction depth generalizing n with
  | zero => exact hdeepest n
  | succ depth ih => exact .nested hclose fun _ ↦ (ih (n + 1)).signed

/-- Reading a rule gives back the levels, and does not depend on what closing a level does where
none is open. -/
theorem agreeAt_readBy (hclose : ∀ d, 0 < d.openLevels → close d = d.leave) (r : Rule) :
    AgreeAt n (fun c ↦ r.production lib (Expression.factorWithin lib (some nestingLimit) c) c)
      (readBy lib close r) := by
  intro c hc
  have hfactor : AgreeAt n (Expression.factorWithin lib (some nestingLimit) c)
      (factorFromBy lib close (some nestingLimit) (fail .tooDeep) (c.remaining + 1)) :=
    agreeAt_factorFrom hclose (fun _ ↦ agreeAt_fail .tooDeep) (c.remaining + 1) n
  exact hfactor.production r c hc

/-! ### The levels of reachable cursors -/

/-- A production leaves as many levels open as it finds. -/
theorem openLevels_of_mem_productions (hf : f ∈ productions lib) (c : Cursor) :
    (cursorBehind (f c)).openLevels = c.openLevels := by
  obtain ⟨r, -, hr⟩ := exists_rule_of_mem_productions hf
  rw [hr c]
  exact (agreeAt_readBy (fun _ _ ↦ rfl) r c rfl).2

theorem openLevels_enter_le (h : c.openLevels ≤ nestingLimit) :
    (cursorBehind c.enter).openLevels ≤ nestingLimit := by
  unfold enter enterWithin
  split
  · exact h
  · next hlt => exact Nat.succ_le_of_lt (by simpa using hlt)

/-- No operation opens more levels than are allowed. -/
theorem Operation.openLevels_le (op : Operation) (h : c.openLevels ≤ nestingLimit) :
    (op.perform lib c).openLevels ≤ nestingLimit := by
  have hproduction {f : Production Float} (hf : f ∈ productions lib) :
      (cursorBehind (f c)).openLevels ≤ nestingLimit := by rwa [openLevels_of_mem_productions hf]
  cases op with
  | advance => exact (openLevels_advance c).symm ▸ h
  | eat t => exact (agreeAt_eat t c rfl).2.symm ▸ h
  | enter => exact openLevels_enter_le h
  | leave => exact Nat.le_trans (Nat.sub_le _ 1) h
  | expression => exact hproduction (by simp [productions])
  | term => exact hproduction (by simp [productions])
  | factor => exact hproduction (by simp [productions])

theorem Reachable.openLevels_le (h : c.Reachable lib source) : c.openLevels ≤ nestingLimit := by
  induction h with
  | new h => exact (inStep_of_ofSource h).2.2.1 ▸ Nat.zero_le _
  | perform _ op ih => exact op.openLevels_le ih

/-- Levels can be opened until the limit is reached. -/
theorem enterTimes_of_le (k : Nat) (h : c.openLevels ≤ nestingLimit) : enterTimes k c =
    if k ≤ nestingLimit - c.openLevels then .ok () { c with openLevels := c.openLevels + k }
    else .error (.tooDeep c.position) { c with openLevels := nestingLimit } := by
  induction k generalizing c with
  | zero => rw [if_pos (Nat.zero_le _)]; rfl
  | succ k ih =>
    rw [enterTimes]
    obtain heq | hlt := Nat.eq_or_lt_of_le h
    · have henter : enter c = .error (.tooDeep c.position) c := by
        rw [enter, enterWithin, if_pos (by simp [heq])]
      rw [bind_of_error henter, if_neg (by omega), ← heq]
    · have henter : enter c = .ok () { c with openLevels := c.openLevels + 1 } := by
        rw [enter, enterWithin, if_neg (by simpa using hlt)]
      rw [bind_of_ok henter, ih (Nat.succ_le_of_lt hlt)]
      have hiff : k ≤ nestingLimit - (c.openLevels + 1) ↔ k + 1 ≤ nestingLimit - c.openLevels := by
        omega
      simp only [hiff, Nat.add_assoc, Nat.add_comm 1 k]
      rfl

/-- **The levels of a reachable cursor are balanced.** At every moment of the use of a cursor the
number of its open levels is within the limit. A production gives back the levels that it opens,
also when it fails, so exactly the levels that are left up to the limit can still be opened. While a
production runs, no level is closed where none is open. -/
theorem Reachable.levels_balanced (h : c.Reachable lib source) : c.Balanced lib where
  openLevels_le := h.openLevels_le
  openLevels_behind f hf := openLevels_of_mem_productions hf c
  enterTimes_eq d hd k := by
    have hlevels : d.openLevels = c.openLevels := by
      obtain rfl | ⟨f, hf, rfl⟩ := hd
      · rfl
      · exact openLevels_of_mem_productions hf c
    rw [← hlevels]
    exact enterTimes_of_le k (hlevels ▸ h.openLevels_le)
  readBy_eq close hclose :=
    ⟨(agreeAt_readBy hclose .expression c rfl).1, (agreeAt_readBy hclose .term c rfl).1,
      (agreeAt_readBy hclose .factor c rfl).1⟩

/-- A level is opened, and an expression fails inside a group inside a factor. The level is still
the only one that is open. -/
theorem levels_balanced_stray : ∃ c : Cursor, c.Reachable .machine "2*(3 $ 4" ∧ c.next = 5 ∧
    c.openLevels = 1 ∧ c.Balanced .machine := by
  have hstart : Reachable .machine "2*(3 $ 4"
      ⟨DeskCalculator.pieces "2*(3 $ 4", 8, 1, some (.number 2, 0), 0⟩ := .new (by decide +kernel)
  have hreachable := (hstart.perform .enter).perform .expression
  exact ⟨_, hreachable, by decide +kernel, by decide +kernel, hreachable.levels_balanced⟩

end DeskCalculator.Cursor
