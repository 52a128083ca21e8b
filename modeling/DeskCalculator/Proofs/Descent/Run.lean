import DeskCalculator.Proofs.Grammar.Derivation

/-!
# Runs of the descent

Reading an expression descends through the rules of the grammar. This file gives the descent as a
relation, one constructor for each way in which a rule can proceed, without a measure that bounds
the recursion. A run goes from a cursor to an outcome, and it has a *trace*: the levels of nesting
that are opened and closed on the way, each opening with the byte at which the cursor then stood. So
the trace tells at every moment how many factors are open.

A run may be under a limit on the levels that are open at a time, or under none. The limit shows in
one constructor alone, which refuses a factor.

## Main definitions

* `Descent.Task`: a rule, or what is left to do of a rule in the middle of it.
* `Descent.Event`: a level of nesting is opened or closed.
* `Descent.Run`: a task leads from a cursor through a trace to an outcome.

## Main results

* `Descent.Run.unique`: the trace and the outcome are determined by the task and the cursor.
-/

namespace DeskCalculator.Descent

/-- A rule, or the part of a rule that remains behind what has been read of it. -/
inductive Task where
  /-- All of a rule. -/
  | rule (r : Rule)
  /-- A factor whose level of nesting is open already. -/
  | unit
  /-- The exponent behind a base, if there is one. -/
  | exponent (base : Float)
  /-- The operators of a level behind the value of what stands before them. -/
  | more (l : Level) (left : Float)

/-- A level of nesting is opened or closed. -/
inductive Event where
  /-- A level is opened while the cursor is at this byte. -/
  | opened (position : Nat)
  /-- The innermost level is closed. -/
  | closed
deriving DecidableEq

/-- What a production gives, with the cursor behind it. -/
abbrev Outcome := EStateM.Result SyntaxError Cursor Float

/-- An operation on the value of an outcome; an error stays as it is. -/
def mapValue (f : Float → Float) : Outcome → Outcome
  | .ok v c => .ok (f v) c
  | .error e c => .error e c

/-- Closes the innermost level behind an outcome. -/
def closeLevel : Outcome → Outcome
  | .ok v c => .ok v c.leave
  | .error e c => .error e c.leave

/-- A cursor with one more open level. -/
def openLevel (c : Cursor) : Cursor := { c with openLevels := c.openLevels + 1 }

/-- Whether a task begins with taking the token at which the cursor looks. -/
def Task.takes : Task → Token → Bool
  | rule .primary, .number _ => true
  | rule .primary, t => t = .leftParen
  | unit, t => t.sign?.isSome
  | exponent _, t => t = .caret
  | more l _, t => (l.operator? t).isSome
  | rule .factor, _ | rule (.chain _), _ => false

variable (lib : Elementary) (limit? : Option Nat)

/-- A task leads from a cursor through a trace to an outcome. -/
inductive Run : Task → Cursor → List Event → Outcome → Prop
  /-- A factor is refused at the limit. -/
  | refused {c} (h : limit?.any (· ≤ c.openLevels) = true) :
      Run (.rule .factor) c [] (.error (.tooDeep c.position) c)
  /-- A factor opens a level, and closes it in either case. -/
  | factor {c es r} (h : limit?.any (· ≤ c.openLevels) = false)
      (inner : Run .unit (openLevel c) es r) :
      Run (.rule .factor) c (.opened c.position :: (es ++ [.closed])) (closeLevel r)
  /-- A sign applies to the factor behind it. -/
  | signed {c c' t sign es r} (h : c.peek = some t) (hsign : t.sign? = some sign)
      (ha : c.advance = .ok () c') (operand : Run (.rule .factor) c' es r) :
      Run .unit c es (mapValue sign.apply r)
  /-- A primary without a sign fails. -/
  | unsigned_error {c c' es e} (h : c.peek.bind Token.sign? = none)
      (base : Run (.rule .primary) c es (.error e c')) : Run .unit c es (.error e c')
  /-- A primary without a sign may have an exponent behind it. -/
  | unsigned {c c' es es' v r} (h : c.peek.bind Token.sign? = none)
      (base : Run (.rule .primary) c es (.ok v c')) (exponent : Run (.exponent v) c' es' r) :
      Run .unit c (es ++ es') r
  /-- A number stands for itself. -/
  | number {c c' v} (h : c.peek = some (.number v)) (ha : c.advance = .ok () c') :
      Run (.rule .primary) c [] (.ok v c')
  /-- The expression of a group fails. -/
  | group_error {c c' c'' es e} (h : c.peek = some .leftParen) (ha : c.advance = .ok () c')
      (inner : Run (.rule .expression) c' es (.error e c'')) :
      Run (.rule .primary) c es (.error e c'')
  /-- A group is closed. -/
  | group {c c' c'' d es v} (h : c.peek = some .leftParen) (ha : c.advance = .ok () c')
      (inner : Run (.rule .expression) c' es (.ok v c''))
      (hc : c''.peek = some .rightParen) (hd : c''.advance = .ok () d) :
      Run (.rule .primary) c es (.ok v d)
  /-- A group is closed, and the character behind it is stray. -/
  | group_stray {c c' c'' d es v e} (h : c.peek = some .leftParen) (ha : c.advance = .ok () c')
      (inner : Run (.rule .expression) c' es (.ok v c''))
      (hc : c''.peek = some .rightParen) (hd : c''.advance = .error e d) :
      Run (.rule .primary) c es (.error e d)
  /-- A group is not closed. -/
  | unclosed {c c' c'' es v} (h : c.peek = some .leftParen) (ha : c.advance = .ok () c')
      (inner : Run (.rule .expression) c' es (.ok v c'')) (hc : c''.peek ≠ some .rightParen) :
      Run (.rule .primary) c es (.error (.unclosedGroup c''.position) c'')
  /-- A token cannot begin a primary. -/
  | unexpected {c t} (h : c.peek = some t) (ht : (Task.rule .primary).takes t = false) :
      Run (.rule .primary) c [] (.error (.unexpectedToken t.text c.position) c)
  /-- The source ends where a primary is needed. -/
  | missing {c} (h : c.peek = none) :
      Run (.rule .primary) c [] (.error (.unexpectedEnd c.position) c)
  /-- There is no exponent. -/
  | unraised {c base} (h : c.peek ≠ some .caret) : Run (.exponent base) c [] (.ok base c)
  /-- A base is raised to the factor behind the operator. -/
  | raised {c c' base es r} (h : c.peek = some .caret) (ha : c.advance = .ok () c')
      (operand : Run (.rule .factor) c' es r) :
      Run (.exponent base) c es (mapValue (BinaryOperator.power.apply lib base) r)
  /-- The first operand of a chain fails. -/
  | chain_error {c c' l es e} (first : Run (.rule l.operand) c es (.error e c')) :
      Run (.rule (.chain l)) c es (.error e c')
  /-- A chain goes on behind its first operand. -/
  | chain {c c' l es es' v r} (first : Run (.rule l.operand) c es (.ok v c'))
      (rest : Run (.more l v) c' es' r) : Run (.rule (.chain l)) c (es ++ es') r
  /-- There is no further operator of the level. -/
  | finished {c l left} (h : c.peek.bind l.operator? = none) : Run (.more l left) c [] (.ok left c)
  /-- The right operand of an operator fails. -/
  | step_error {c c' c'' l left t op es e} (h : c.peek = some t) (hop : l.operator? t = some op)
      (ha : c.advance = .ok () c') (operand : Run (.rule l.operand) c' es (.error e c'')) :
      Run (.more l left) c es (.error e c'')
  /-- An operator is applied to what stands before it and to its right operand. -/
  | step {c c' c'' l left t op es es' v r} (h : c.peek = some t) (hop : l.operator? t = some op)
      (ha : c.advance = .ok () c') (operand : Run (.rule l.operand) c' es (.ok v c''))
      (rest : Run (.more l (op.apply lib left v)) c'' es' r) : Run (.more l left) c (es ++ es') r
  /-- The character behind the first token of a task is stray. -/
  | stray {task c d t e} (h : c.peek = some t) (ht : task.takes t = true)
      (ha : c.advance = .error e d) : Run task c [] (.error e d)

variable {lib limit?}

@[simp] theorem openLevels_openLevel (c : Cursor) :
    (openLevel c).openLevels = c.openLevels + 1 := rfl

@[grind =] theorem takes_factor (t : Token) : (Task.rule .factor).takes t = false := rfl

@[grind =] theorem takes_chain (l : Level) (t : Token) :
    (Task.rule (.chain l)).takes t = false := rfl

@[grind =] theorem takes_unit (t : Token) : Task.unit.takes t = t.sign?.isSome := rfl

@[grind =] theorem takes_exponent (base : Float) (t : Token) :
    (Task.exponent base).takes t = decide (t = .caret) := rfl

@[grind =] theorem takes_more (l : Level) (left : Float) (t : Token) :
    (Task.more l left).takes t = (l.operator? t).isSome := rfl

@[grind =] theorem takes_number (v : Float) : (Task.rule .primary).takes (.number v) = true := rfl

@[grind =] theorem takes_leftParen : (Task.rule .primary).takes .leftParen = true := rfl

/-- A task has one run from a cursor: the trace and the outcome are determined. -/
theorem Run.unique {task : Task} {c : Cursor} {es es' : List Event} {r r' : Outcome}
    (h : Run lib limit? task c es r) (h' : Run lib limit? task c es' r') : es = es' ∧ r = r' := by
  -- The premises on the lookahead and on the step behind it tell the constructors apart.
  induction h generalizing es' r' with
  | _ => cases h' <;> grind

end DeskCalculator.Descent
