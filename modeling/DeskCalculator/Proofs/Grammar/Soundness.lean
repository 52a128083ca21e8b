import DeskCalculator.Proofs.Descent.Ahead

/-!
# Runs that succeed find derivations

A run of a rule that succeeds has read the tokens of a derivation of the rule, its value is that of
the derivation, and under a limit the derivation is nested no deeper than the levels that were free.
For the part of a rule that a task stands for, the same holds of the part of a derivation.

## Main definitions

* `Descent.Task.Derives`: the tokens, nestings and values of the derivations of a task.

## Main results

* `Descent.Run.sound`: what a successful run has read, and its value.
-/

namespace DeskCalculator.Descent

/-- A task has a derivation, or a part of one, with these tokens, this nesting and this value. -/
def Task.Derives (lib : Elementary) : Task → List Token → Nat → Float → Prop
  | rule r, ts, n, v => ∃ d : Derivation r, d.tokens = ts ∧ d.nesting = n ∧ d.value lib = v
  | unit, ts, n, v =>
    ∃ d : Derivation .factor, d.tokens = ts ∧ d.nesting = n + 1 ∧ d.value lib = v
  | exponent base, ts, n, v =>
    ts = [] ∧ n = 0 ∧ v = base ∨
      ∃ d : Derivation .factor, ts = .caret :: d.tokens ∧ n = d.nesting ∧
        v = BinaryOperator.power.apply lib base (d.value lib)
  | more l left, ts, n, v =>
    ∃ k : Continuation l, k.tokens = ts ∧ k.nesting = n ∧ k.value lib left = v

variable {lib : Elementary} {limit? : Option Nat} {task : Task} {c d : Cursor} {es : List Event}
  {r : Outcome} {v : Float} {e : SyntaxError}

theorem mapValue_eq_ok_iff {f : Float → Float} :
    mapValue f r = .ok v d ↔ ∃ w, r = .ok w d ∧ f w = v := by
  cases r with
  | error e d' => simp [mapValue]
  | ok w d' =>
    simp only [mapValue, EStateM.Result.ok.injEq]
    exact ⟨fun ⟨hv, hd⟩ ↦ ⟨w, ⟨rfl, hd⟩, hv⟩, fun ⟨_, ⟨hw, hd⟩, hv⟩ ↦ ⟨hw ▸ hv, hd⟩⟩

theorem closeLevel_eq_ok_iff : closeLevel r = .ok v d ↔ ∃ d', r = .ok v d' ∧ d'.leave = d := by
  cases r with
  | error e d' => simp [closeLevel]
  | ok w d' =>
    simp only [closeLevel, EStateM.Result.ok.injEq]
    exact ⟨fun ⟨hv, hd⟩ ↦ ⟨d', ⟨hv, rfl⟩, hd⟩, fun ⟨_, ⟨hv, hd⟩, hd'⟩ ↦ ⟨hv, hd ▸ hd'⟩⟩

theorem mapValue_eq_error_iff {f : Float → Float} :
    mapValue f r = .error e d ↔ r = .error e d := by
  cases r <;> simp [mapValue]

theorem closeLevel_eq_error_iff :
    closeLevel r = .error e d ↔ ∃ d', r = .error e d' ∧ d'.leave = d := by
  cases r <;> simp [closeLevel, and_assoc]

/-- What a successful run has read: the tokens of a derivation of its task, with the value of the
derivation, and nested no deeper than the levels that were free. -/
theorem Run.sound (h : Run lib limit? task c es r) (hc : c.InStep) :
    ∀ v d, r = .ok v d → d.InStep ∧ ∃ ts n, c.Reads ts d ∧ task.Derives lib ts n v ∧
      ∀ m ∈ limit?, n ≤ m - c.openLevels := by
  induction h with
  | refused | unsigned_error | group_error | group_stray | unclosed | unexpected | missing
  | chain_error | step_error | stray => exact fun v d hr ↦ nomatch hr
  | @factor c es r hlimit _ ih =>
    intro v d hr
    obtain ⟨d', rfl, rfl⟩ := closeLevel_eq_ok_iff.mp hr
    obtain ⟨hd, ts, n, hreads, ⟨der, rfl, hn, rfl⟩, hm⟩ := ih hc.of_openLevel v d' rfl
    refine ⟨hd.of_leave, _, n + 1, hreads, ⟨der, rfl, hn, rfl⟩, fun m hlim ↦ ?_⟩
    have hle : n ≤ m - (c.openLevels + 1) := hm m hlim
    have hlt : ¬ m ≤ c.openLevels := by simpa [Option.mem_def.mp hlim] using hlimit
    omega
  | signed hpeek hsign ha _ ih =>
    intro v d hr
    obtain ⟨w, rfl, rfl⟩ := mapValue_eq_ok_iff.mp hr
    obtain ⟨hc', hreads'⟩ := hc.reads_of_advance_ok hpeek ha
    obtain ⟨hd, ts, n, hreads, ⟨der, rfl, rfl, rfl⟩, hm⟩ := ih hc' w d rfl
    refine ⟨hd, _, _, hreads'.append hreads, ⟨.signed _ _ hsign der, rfl, rfl, rfl⟩, ?_⟩
    rwa [Cursor.openLevels_of_advance_ok ha] at hm
  | unsigned _ hbase _ ih ih' =>
    intro v d hr
    obtain ⟨hc', ts, n, hreads, ⟨base, rfl, rfl, rfl⟩, hm⟩ := ih hc _ _ rfl
    obtain ⟨hd, ts', n', hreads', hder, hm'⟩ := ih' hc' v d hr
    rw [hbase.openLevels_of_ok] at hm'
    rcases hder with ⟨rfl, rfl, rfl⟩ | ⟨exponent, rfl, rfl, rfl⟩
    · exact ⟨hd, _, _, hreads.append hreads',
        ⟨.plain base, (List.append_nil _).symm, rfl, rfl⟩, hm⟩
    · exact ⟨hd, _, max _ _, hreads.append hreads', ⟨.power base exponent, rfl, rfl, rfl⟩,
        fun m hlim ↦ Nat.max_le.mpr ⟨hm m hlim, hm' m hlim⟩⟩
  | @number c c' v hpeek ha =>
    intro _ _ hr
    obtain ⟨rfl, rfl⟩ := EStateM.Result.ok.inj hr
    obtain ⟨hd, hreads⟩ := hc.reads_of_advance_ok hpeek ha
    exact ⟨hd, _, 0, hreads, ⟨.number v, rfl, rfl, rfl⟩, fun m _ ↦ Nat.zero_le _⟩
  | group hpeek ha hinner hclose hd ih =>
    intro v d hr
    cases hr
    obtain ⟨hc', hopen⟩ := hc.reads_of_advance_ok hpeek ha
    obtain ⟨hc'', ts, n, hreads, ⟨inner, rfl, rfl, rfl⟩, hm⟩ := ih hc' _ _ rfl
    obtain ⟨hd', hlast⟩ := hc''.reads_of_advance_ok hclose hd
    refine ⟨hd', _, _, hopen.append (hreads.append hlast), ⟨.group inner, rfl, rfl, rfl⟩, ?_⟩
    rwa [Cursor.openLevels_of_advance_ok ha] at hm
  | unraised =>
    intro v d hr
    cases hr
    exact ⟨hc, [], 0, .refl _, .inl ⟨rfl, rfl, rfl⟩, fun m _ ↦ Nat.zero_le _⟩
  | raised hpeek ha _ ih =>
    intro v d hr
    obtain ⟨w, rfl, rfl⟩ := mapValue_eq_ok_iff.mp hr
    obtain ⟨hc', hreads'⟩ := hc.reads_of_advance_ok hpeek ha
    obtain ⟨hd, ts, n, hreads, ⟨der, rfl, rfl, rfl⟩, hm⟩ := ih hc' w d rfl
    refine ⟨hd, _, _, hreads'.append hreads, .inr ⟨der, rfl, rfl, rfl⟩, ?_⟩
    rwa [Cursor.openLevels_of_advance_ok ha] at hm
  | chain hfirst _ ih ih' =>
    intro v d hr
    obtain ⟨hc', ts, n, hreads, ⟨first, rfl, rfl, rfl⟩, hm⟩ := ih hc _ _ rfl
    obtain ⟨hd, ts', n', hreads', ⟨more, rfl, rfl, rfl⟩, hm'⟩ := ih' hc' v d hr
    rw [hfirst.openLevels_of_ok] at hm'
    exact ⟨hd, _, max _ _, hreads.append hreads', ⟨.chain _ first more, rfl, rfl, rfl⟩,
      fun m hlim ↦ Nat.max_le.mpr ⟨hm m hlim, hm' m hlim⟩⟩
  | finished =>
    intro v d hr
    cases hr
    exact ⟨hc, [], 0, .refl _, ⟨.done _, rfl, rfl, rfl⟩, fun m _ ↦ Nat.zero_le _⟩
  | step hpeek hop ha hoperand _ ih ih' =>
    intro v d hr
    obtain ⟨hc', hmark⟩ := hc.reads_of_advance_ok hpeek ha
    obtain ⟨hc'', ts, n, hreads, ⟨operand, rfl, rfl, rfl⟩, hm⟩ := ih hc' _ _ rfl
    obtain ⟨hd, ts', n', hreads', ⟨more, rfl, rfl, rfl⟩, hm'⟩ := ih' hc'' v d hr
    rw [Cursor.openLevels_of_advance_ok ha] at hm
    rw [hoperand.openLevels_of_ok, Cursor.openLevels_of_advance_ok ha] at hm'
    exact ⟨hd, _, max _ _, hmark.append (hreads.append hreads'),
      ⟨.step _ _ _ hop operand more, rfl, rfl, rfl⟩,
      fun m hlim ↦ Nat.max_le.mpr ⟨hm m hlim, hm' m hlim⟩⟩

end DeskCalculator.Descent
