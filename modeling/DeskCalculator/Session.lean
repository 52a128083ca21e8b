import DeskCalculator.Calculation
import DeskCalculator.Key

/-!
# Keypad sessions

A session holds what has been typed and what is on the display. After a calculation it is *fresh*:
what was typed stays until the next key, which begins anew. A result is therefore never typed on.

## Main definitions

* `Session`: the state of a keypad.
* `Session.press`: the state after a key.
* `Session.pressLabel`, `Session.pressLabels`: the same for labels, which may be unknown.
-/

namespace DeskCalculator

/-- The state of a keypad. -/
structure Session where
  /-- The characters that have been typed since the last clear or calculation. -/
  entry : String
  /-- The text on the display. -/
  display : String
  /-- Whether the next key begins a new entry. -/
  fresh : Bool
deriving DecidableEq, Repr

namespace Session

/-- The session in which nothing has been pressed. -/
def start : Session := ⟨"", "", false⟩

/-- What a key finds typed. -/
def pending (s : Session) : String := if s.fresh then "" else s.entry

variable (lib : Elementary)

/-- The session after a key. -/
def press (s : Session) : Key → Session
  | .input c => ⟨s.pending.push c, s.pending.push c, false⟩
  | .equals => ⟨s.pending, shown (calculate lib s.pending), true⟩
  | .function f => ⟨s.pending, shown (f.calculate lib s.pending), true⟩
  | .clearEntry | .clearAll => start

/-- The session after several keys. -/
def pressAll (s : Session) (keys : List Key) : Session := keys.foldl (press lib) s

/-- The session after each character of a text has been typed. -/
def typeText (s : Session) (text : String) : Session := s.pressAll lib (text.toList.map .input)

/-- The session after the key with a label. -/
def pressLabel (s : Session) (label : String) : Except Failure Session := do
  return s.press lib (← Key.ofLabel label)

/-- The session after the keys with the given labels, or the failure of the first unknown one. -/
def pressLabels (s : Session) (labels : List String) : Except Failure Session :=
  labels.foldlM (pressLabel lib) s

@[simp] theorem pressAll_nil (s : Session) : s.pressAll lib [] = s := rfl

@[simp] theorem pressAll_cons (s : Session) (key : Key) (keys : List Key) :
    s.pressAll lib (key :: keys) = (s.press lib key).pressAll lib keys := rfl

theorem pressAll_append (s : Session) (keys more : List Key) :
    s.pressAll lib (keys ++ more) = (s.pressAll lib keys).pressAll lib more :=
  List.foldl_append

end Session

end DeskCalculator
