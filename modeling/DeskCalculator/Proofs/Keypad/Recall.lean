import DeskCalculator.Session
import Mathlib.Data.List.DropRight

/-!
# What a session recalls

What was typed is only cleared when the next key comes, so behind a calculation the entry, the
display and the flag of a session are out of step with each other. What a key *finds* typed is in
step: it is the text of the character keys that end the sequence before it. A key depends on nothing
else, so the state of a session can be read off the last key and the run of character keys before
it, and everything before the last two other keys is forgotten.

## Main definitions

* `Key.character?`, `Key.calculates`: what a key does to the entry.
* `typedAtEnd`: the text of the character keys that end a sequence.
* `Session.Recalls`: the state that belongs to a sequence of keys.

## Main results

* `Session.pending_pressAll`: what a key finds typed.
* `Session.recalls_recentKeys`: the state of a session is determined by its recent keys.
-/

namespace DeskCalculator

namespace Key

/-- The character that a key types. -/
def character? : Key → Option Char
  | input c => some c
  | equals | function _ | clearEntry | clearAll => none

/-- Whether a key starts a calculation. -/
def calculates : Key → Bool
  | equals | function _ => true
  | input _ | clearEntry | clearAll => false

end Key

/-- The text of the longest run of character keys that ends a sequence of keys. -/
def typedAtEnd (keys : List Key) : String :=
  String.ofList ((keys.rtakeWhile (·.character?.isSome)).filterMap Key.character?)

/-- A character key goes on with the run, and any other key ends it. -/
theorem typedAtEnd_concat (keys : List Key) (key : Key) :
    typedAtEnd (keys ++ [key]) = (key.character?.map (typedAtEnd keys).push).getD "" := by
  cases hkey : key.character? with
  | none =>
    rw [typedAtEnd, List.rtakeWhile_concat_neg _ _ _ (by simp [hkey])]
    rfl
  | some c =>
    have hone : [key].filterMap Key.character? = [c] := by simp [hkey]
    rw [typedAtEnd, List.rtakeWhile_concat_pos _ _ _ (by simp [hkey]), List.filterMap_append, hone,
      String.ofList_append, ← String.singleton_eq_ofList, ← String.push_eq_append]
    rfl

/-- The run that ends a sequence does not reach beyond a key that types nothing. -/
theorem typedAtEnd_append (earlier : List Key) {recent : List Key}
    (h : ∃ key ∈ recent, key.character? = none) :
    typedAtEnd (earlier ++ recent) = typedAtEnd recent := by
  induction recent using List.reverseRecOn with
  | nil => simp at h
  | append_singleton recent key ih =>
    rw [← List.append_assoc, typedAtEnd_concat, typedAtEnd_concat]
    cases hkey : key.character? with
    | none => rfl
    | some c =>
      obtain ⟨last, hlast, hnone⟩ := h
      have hne : last ≠ key := by
        rintro rfl
        simp [hkey] at hnone
      have hrecent : last ∈ recent := by simpa [hne] using hlast
      rw [ih ⟨last, hrecent, hnone⟩]

namespace Session

variable (lib : Elementary)

theorem pressAll_concat (s : Session) (keys : List Key) (key : Key) :
    s.pressAll lib (keys ++ [key]) = (s.pressAll lib keys).press lib key :=
  s.pressAll_append lib keys [key]

/-- What a key finds typed behind another key. -/
theorem pending_press (s : Session) (key : Key) :
    (s.press lib key).pending = (key.character?.map s.pending.push).getD "" := by
  cases key <;> rfl

/-- A key depends only on what it finds typed. -/
theorem press_congr {s s' : Session} (h : s.pending = s'.pending) (key : Key) :
    s.press lib key = s'.press lib key := by
  cases key <;> simp only [press, h]

/-- A key finds typed what the character keys directly before it have typed. -/
theorem pending_pressAll (keys : List Key) :
    (start.pressAll lib keys).pending = typedAtEnd keys := by
  induction keys using List.reverseRecOn with
  | nil => rfl
  | append_singleton keys key ih =>
    rw [pressAll_concat, pending_press, ih, typedAtEnd_concat]

/-- The state of a session that belongs to a sequence of keys. -/
structure Recalls (keys : List Key) (s : Session) : Prop where
  /-- The session is fresh exactly behind a calculation. -/
  fresh_iff : s.fresh = true ↔ ∃ key ∈ keys.getLast?, key.calculates = true
  /-- The entry is what the last character keys have typed, up to a calculation behind them. -/
  entry_eq : s.entry = match keys.getLast? with
    | some (.input _) => typedAtEnd keys
    | some .equals | some (.function _) => typedAtEnd keys.dropLast
    | some .clearEntry | some .clearAll | none => ""
  /-- The display shows the entry while it is typed, and the outcome of a calculation. -/
  display_eq : s.display = match keys.getLast? with
    | some (.input _) => s.entry
    | some .equals => shown (calculate lib s.entry)
    | some (.function f) => shown (f.calculate lib s.entry)
    | some .clearEntry | some .clearAll | none => ""

/-- The state behind a sequence of keys belongs to it. -/
theorem recalls_pressAll (keys : List Key) : Recalls lib keys (start.pressAll lib keys) := by
  obtain rfl | ⟨keys, key, rfl⟩ := keys.eq_nil_or_concat'
  · exact ⟨by simp [start], rfl, rfl⟩
  · have hpending := pending_pressAll lib keys
    have htyped := typedAtEnd_concat keys key
    rw [pressAll_concat]
    refine ⟨?_, ?_, ?_⟩ <;> rw [List.getLast?_concat]
    · cases key <;> simp [press, start, Key.calculates]
    · rw [List.dropLast_concat, htyped, ← hpending]
      cases key <;> rfl
    · cases key <;> rfl

/-- Keys before the last two that type nothing are forgotten. -/
theorem pressAll_append_of_two (earlier : List Key) {recent : List Key}
    (h : 2 ≤ recent.countP (·.character?.isNone)) :
    start.pressAll lib (earlier ++ recent) = start.pressAll lib recent := by
  obtain rfl | ⟨recent, key, rfl⟩ := recent.eq_nil_or_concat'
  · simp at h
  · have hcount : 0 < recent.countP (·.character?.isNone) := by
      have hle : [key].countP (·.character?.isNone) ≤ 1 := List.countP_le_length
      rw [List.countP_append] at h
      omega
    obtain ⟨last, hlast, hnone⟩ := List.countP_pos_iff.mp hcount
    have htyped := typedAtEnd_append earlier ⟨last, hlast, Option.isNone_iff_eq_none.mp hnone⟩
    rw [← List.append_assoc, pressAll_concat, pressAll_concat]
    refine press_congr lib ?_ key
    rw [pending_pressAll, pending_pressAll, htyped]

/-- **A session recalls its recent keys.** The flag, the entry and the display behind any sequence
of keys are determined by its last key and the character keys before it. So no key before the last
two that type nothing has any influence, and the two clear keys can stand for each other
everywhere. -/
theorem recalls_recentKeys :
    (∀ keys, Recalls lib keys (start.pressAll lib keys)) ∧
    (∀ earlier recent : List Key, 2 ≤ recent.countP (·.character?.isNone) →
      start.pressAll lib (earlier ++ recent) = start.pressAll lib recent) ∧
    ∀ before after : List Key, start.pressAll lib (before ++ .clearEntry :: after) =
      start.pressAll lib (before ++ .clearAll :: after) := by
  refine ⟨recalls_pressAll lib, fun earlier _ ↦ pressAll_append_of_two lib earlier,
    fun before after ↦ ?_⟩
  rw [pressAll_append, pressAll_append, pressAll_cons, pressAll_cons]
  rfl

/-- Behind `= 3 x^2` nothing is left of the calculation before. -/
theorem recalls_recentKeys_square :
    2 ≤ [Key.equals, .input '3', .function .square].countP (·.character?.isNone) ∧
      start.pressAll .machine
          ([.input '8', .input '+'] ++ [.equals, .input '3', .function .square]) =
        ⟨"3", "9", true⟩ := by
  have hcount : 2 ≤ [Key.equals, .input '3', .function .square].countP (·.character?.isNone) := by
    decide
  refine ⟨hcount, ?_⟩
  rw [(recalls_recentKeys .machine).2.1 [.input '8', .input '+'] _ hcount]
  decide +kernel

end Session

end DeskCalculator
