import DeskCalculator.Proofs.Display.ReadBack
import DeskCalculator.Proofs.Keypad.Recall
import DeskCalculator.Proofs.Number.Whole

/-!
# What the display shows

A number has many texts, but only one of them is *canonical*: it has no zero in front of another
digit before the point, no zero at the end of the digits behind it, and no point without digits on
both sides. A minus may stand before it, but not before a zero. Behind a key that calculates, the
display shows such a text for the value of the calculation, or else the word for a failure. The text
has a point exactly if the value has a fractional part, and all digits of the value if it has none.

## Main definitions

* `IsWholeText`, `IsFractionText`, `IsCanonical`: the canonical texts and their parts.
* `Key.outcome?`: the calculation that a key starts.

## Main results

* `isCanonical_readout`: what is shown for a finite double is canonical.
* `display_canonical`: what is shown behind a key that calculates.
-/

namespace DeskCalculator

/-- The canonical texts before the point: a zero alone, or digits of which the first is no zero. -/
inductive IsWholeText : List Char → Prop
  /-- A zero alone. -/
  | zero : IsWholeText ['0']
  /-- Digits of which the first is no zero. -/
  | digits {c cs} (hc : c.isDigit = true) (hne : c ≠ '0') (h : ∀ d ∈ cs, d.isDigit = true) :
      IsWholeText (c :: cs)

/-- The canonical texts from the point on: nothing, or a point and digits of which the last is no
zero. -/
inductive IsFractionText : List Char → Prop
  /-- No point. -/
  | none : IsFractionText []
  /-- Digits of which the last is no zero. -/
  | digits {cs c} (h : ∀ d ∈ cs, d.isDigit = true) (hc : c.isDigit = true) (hne : c ≠ '0') :
      IsFractionText ('.' :: (cs ++ [c]))

/-- The canonical texts of numbers. -/
inductive IsCanonical : List Char → Prop
  /-- A whole part and a fraction. -/
  | plain {ds fs} (h : IsWholeText ds) (h' : IsFractionText fs) : IsCanonical (ds ++ fs)
  /-- A whole part and a fraction behind a minus, but not a zero. -/
  | minus {ds fs} (h : IsWholeText ds) (h' : IsFractionText fs) (hne : ds ++ fs ≠ ['0']) :
      IsCanonical ('-' :: (ds ++ fs))

/-- The text is the canonical one of the value of a double. -/
structure Displays (v : Float) (text : String) : Prop where
  /-- The text is canonical. -/
  isCanonical : IsCanonical text.toList
  /-- It is not a zero with a sign. -/
  ne_minusZero : text ≠ "-0"
  /-- It is made of digits, a point and a minus, so it has no exponent and no word. -/
  isDigit_or : ∀ c ∈ text.toList, c.isDigit = true ∨ c = '.' ∨ c = '-'
  /-- It has a point exactly if the value has a fractional part. -/
  point_iff : '.' ∈ text.toList ↔ ¬ ∃ n : ℤ, exactValue v = n
  /-- It has all digits of a whole number, and no others. -/
  digits_eq : ∀ n : ℤ, exactValue v = n → text = toString n

/-- The calculation that a key starts, with what has been typed. -/
def Key.outcome? (lib : Elementary) (entry : String) : Key → Option (Except Failure Float)
  | equals => some (calculate lib entry)
  | function f => some (f.calculate lib entry)
  | input _ | clearEntry | clearAll => none

/-! ### Digits of numbers -/

theorem isDigit_digitChar {n : Nat} (h : n < 10) : n.digitChar.isDigit = true := by
  interval_cases n <;> rfl

theorem digitChar_ne_zero {n : Nat} (h : n < 10) (hne : n ≠ 0) : n.digitChar ≠ '0' := by
  interval_cases n <;> revert hne <;> decide

/-- The first digit of a positive number is no zero. -/
theorem exists_first_digit {n : Nat} (h : n ≠ 0) :
    ∃ c cs, Nat.toDigits 10 n = c :: cs ∧ c ≠ '0' := by
  induction n using Nat.strongRecOn with
  | ind n ih =>
    rcases Nat.lt_or_ge n 10 with hlt | hge
    · exact ⟨_, [], Nat.toDigits_of_lt_base hlt, digitChar_ne_zero hlt h⟩
    · obtain ⟨c, cs, hdigits, hc⟩ := ih (n / 10) (by omega) (by omega)
      refine ⟨c, cs ++ [(n % 10).digitChar], ?_, hc⟩
      rw [Nat.toDigits_of_base_le (by decide) hge, hdigits, List.cons_append]

/-- The last digit of a number is its remainder. -/
theorem exists_last_digit (n : Nat) : ∃ cs, Nat.toDigits 10 n = cs ++ [(n % 10).digitChar] := by
  rcases Nat.lt_or_ge n 10 with hlt | hge
  · exact ⟨[], by rw [Nat.toDigits_of_lt_base hlt, Nat.mod_eq_of_lt hlt, List.nil_append]⟩
  · exact ⟨_, Nat.toDigits_of_base_le (by decide) hge⟩

/-- The digits of a number are canonical. -/
theorem isWholeText_toDigits (n : Nat) : IsWholeText (Nat.toDigits 10 n) := by
  have hdigits := isDigit_of_mem_toDigits n
  by_cases h : n = 0
  · subst h
    exact .zero
  · obtain ⟨c, cs, heq, hc⟩ := exists_first_digit h
    rw [heq] at hdigits ⊢
    rw [List.forall_mem_cons] at hdigits
    exact .digits hdigits.1 hc hdigits.2

/-! ### Canonical texts -/

theorem IsWholeText.isDigit {ds : List Char} (h : IsWholeText ds) : ∀ c ∈ ds, c.isDigit = true := by
  cases h with
  | zero => simp
  | digits hc _ h => exact List.forall_mem_cons.mpr ⟨hc, h⟩

theorem IsFractionText.isDigit_or {fs : List Char} (h : IsFractionText fs) :
    ∀ c ∈ fs, c.isDigit = true ∨ c = '.' := by
  cases h with
  | none => exact List.forall_mem_nil _
  | digits h hc _ =>
    rw [List.forall_mem_cons, List.forall_mem_append, List.forall_mem_singleton]
    exact ⟨.inr rfl, fun c hmem ↦ .inl (h c hmem), .inl hc⟩

/-- A canonical text is made of digits, a point and a minus. -/
theorem IsCanonical.isDigit_or {text : List Char} (h : IsCanonical text) :
    ∀ c ∈ text, c.isDigit = true ∨ c = '.' ∨ c = '-' := by
  have hparts {ds fs : List Char} (h : IsWholeText ds) (h' : IsFractionText fs) :
      ∀ c ∈ ds ++ fs, c.isDigit = true ∨ c = '.' ∨ c = '-' := by
    rw [List.forall_mem_append]
    exact ⟨fun c hc ↦ .inl (h.isDigit c hc), fun c hc ↦ (h'.isDigit_or c hc).imp_right .inl⟩
  cases h with
  | plain h h' => exact hparts h h'
  | minus h h' _ => exact List.forall_mem_cons.mpr ⟨.inr (.inr rfl), hparts h h'⟩

/-- A zero with a sign is not canonical. -/
theorem not_isCanonical_minusZero : ¬ IsCanonical ['-', '0'] := by
  intro h
  generalize htext : ['-', '0'] = text at h
  cases h with
  | @plain ds fs h h' =>
    cases h with
    | zero => cases htext
    | digits hc =>
      obtain ⟨rfl, -⟩ := List.cons.inj htext
      cases hc
  | minus h h' hne => exact hne (List.cons.inj htext).2.symm

/-- The text of a whole number is made of its digits, behind a minus if it is negative. -/
theorem toList_toString (n : ℤ) :
    (toString n).toList = (if n < 0 then ['-'] else []) ++ Nat.toDigits 10 n.natAbs := by
  rw [Int.toString_eq_repr, Int.repr_eq_if]
  rcases lt_or_ge n 0 with h | h
  · have habs : (-n).toNat = n.natAbs := by omega
    rw [if_neg (Int.not_le.mpr h), if_pos h, String.toList_append, Nat.toList_repr, habs]
    rfl
  · have habs : n.toNat = n.natAbs := by omega
    rw [if_pos h, if_neg (Int.not_lt.mpr h), Nat.toList_repr, habs, List.nil_append]

/-- The text of a whole number is canonical, and has no point. -/
theorem isCanonical_toString (n : ℤ) :
    IsCanonical (toString n).toList ∧ '.' ∉ (toString n).toList := by
  have hwhole := isWholeText_toDigits n.natAbs
  have hcanonical := IsCanonical.plain hwhole .none
  have hpoint : '.' ∉ Nat.toDigits 10 n.natAbs := fun hmem ↦ by
    cases hwhole.isDigit '.' hmem
  rw [List.append_nil] at hcanonical
  rw [toList_toString]
  split
  · next hneg =>
    obtain ⟨c, cs, hdigits, hc⟩ := exists_first_digit (n := n.natAbs) (by omega)
    have hne : Nat.toDigits 10 n.natAbs ++ [] ≠ ['0'] := by
      rw [List.append_nil, hdigits]
      exact fun heq ↦ hc (List.cons.inj heq).1
    have hminus := IsCanonical.minus hwhole .none hne
    rw [List.append_nil] at hminus
    exact ⟨hminus, by simpa using hpoint⟩
  · exact ⟨hcanonical, hpoint⟩

/-- A text of digits of which the last is no zero is a fraction. -/
theorem isFractionText_append {zeros : List Char} (hzeros : ∀ c ∈ zeros, c.isDigit = true) {n : Nat}
    (h : n % 10 ≠ 0) {k : Nat} (hk : k < (Nat.toDigits 10 n).length) :
    IsFractionText ('.' :: (zeros ++ (Nat.toDigits 10 n).drop k)) := by
  have hdigits := isDigit_of_mem_toDigits n
  have hlt := Nat.mod_lt n (show 0 < 10 by decide)
  obtain ⟨front, hfront⟩ := exists_last_digit n
  rw [hfront] at hdigits hk ⊢
  rw [List.length_append, List.length_singleton] at hk
  rw [List.drop_append_of_le_length (by omega), ← List.append_assoc]
  refine .digits ?_ (isDigit_digitChar hlt) (digitChar_ne_zero hlt h)
  exact List.forall_mem_append.mpr ⟨hzeros, fun c hc ↦
    hdigits c (List.mem_append_left _ (List.mem_of_mem_drop hc))⟩

/-- A decimal that has places behind the point and does not end with a zero has a canonical plain
text. -/
theorem exists_plain_eq {d : Decimal} (hexponent : d.exponent < 0) (h : d.coefficient % 10 ≠ 0) :
    ∃ ds fs, d.plain = ds ++ '.' :: fs ∧ IsWholeText ds ∧ IsFractionText ('.' :: fs) := by
  have hdigits := d.isDigit_of_mem_digits
  rw [Decimal.plain, if_neg (Int.not_le.mpr hexponent), Decimal.pointed]
  split
  · next hlt =>
    have hdrop : d.digits.length - (-d.exponent).toNat < d.digits.length := by omega
    refine ⟨_, _, rfl, ?_, isFractionText_append (List.forall_mem_nil _) h hdrop⟩
    obtain ⟨c, cs, heq, hc⟩ := exists_first_digit (n := d.coefficient) (by omega)
    obtain ⟨k, hk⟩ := Nat.exists_eq_succ_of_ne_zero (Nat.sub_ne_zero_of_lt hlt)
    rw [hk]
    rw [Decimal.digits, heq] at hdigits ⊢
    rw [List.forall_mem_cons] at hdigits
    exact .digits hdigits.1 hc fun c hc ↦ hdigits.2 c (List.mem_of_mem_take hc)
  · have hlength : 0 < d.digits.length := List.length_pos_iff.mpr Nat.toDigits_ne_nil
    exact ⟨['0'], _, rfl, .zero,
      isFractionText_append (Decimal.isDigit_of_mem_replicate _) h hlength⟩

/-! ### What is shown for a double -/

variable {v : Float}

/-- The digits of a positive number behind the sign of a double are the text of a whole number. -/
theorem ofList_signText_append (v : Float) {k : Nat} (hpos : 0 < k) :
    String.ofList (signText v ++ Nat.toDigits 10 k) =
      toString ((if isNegative v then -1 else 1) * (k : ℤ)) := by
  rw [← String.toList_inj, String.toList_ofList, toList_toString, signText]
  cases isNegative v with
  | false => simp
  | true => simp [hpos]

/-- A whole number is shown as its digits. -/
theorem exists_readout_eq_toString (h : v.isFinite) (hintegral : isIntegral v = true) :
    ∃ n : ℤ, exactValue v = n ∧ readout v = toString n := by
  have hvalue := exactValue_of_isIntegral h hintegral
  refine ⟨_, hvalue, ?_⟩
  by_cases hzero : Magnitude.ofFloat v = 0
  · have hwhole : Magnitude.wholePart 0 = 0 := by
      rw [Magnitude.wholePart, Magnitude.units_eq_self (by decide), Nat.zero_div]
    rw [readout_of_magnitude_eq_zero hzero, hzero, hwhole, Int.natCast_zero, mul_zero]
    rfl
  · have hunits := Magnitude.units_strictMono (Nat.pos_of_ne_zero hzero)
    have hdvd := (isIntegral_iff_dvd h).mp hintegral
    have hpos : 0 < Magnitude.wholePart (Magnitude.ofFloat v) := by
      rw [Magnitude.wholePart]
      exact Nat.div_pos (Nat.le_of_dvd (Nat.zero_lt_of_lt hunits) hdvd) Magnitude.unitsInOne_pos
    rw [readout, if_neg hzero, if_pos hintegral]
    exact ofList_signText_append v hpos

/-- A double that is no whole number is shown with a point, and with the digits that are needed on
both sides. -/
theorem exists_toList_readout (h : v.isFinite) (hintegral : isIntegral v ≠ true) :
    ∃ ds fs, (readout v).toList = signText v ++ (ds ++ '.' :: fs) ∧ IsWholeText ds ∧
      IsFractionText ('.' :: fs) := by
  have hdvd := mt (isIntegral_iff_dvd h).mpr hintegral
  have hzero : Magnitude.ofFloat v ≠ 0 := by
    intro hzero
    rw [hzero, Magnitude.units_eq_self (by decide)] at hdvd
    exact hdvd (Nat.dvd_zero _)
  have hexponent := Decimal.exponent_shortest_neg (Magnitude.ofFloat_lt_infinite h) hdvd
  have hnonzero : Decimal.shortest (Magnitude.ofFloat v) ≠ ⟨0, 0⟩ := by
    intro heq
    rw [heq] at hexponent
    exact lt_irrefl _ hexponent
  have hcoefficient := (Decimal.coefficient_shortest (Magnitude.ofFloat v)).resolve_left hnonzero
  obtain ⟨ds, fs, hplain, hds, hfs⟩ := exists_plain_eq hexponent hcoefficient
  refine ⟨ds, fs, ?_, hds, hfs⟩
  rw [readout, if_neg hzero, if_neg hintegral, plainText, isNaN_of_isFinite h, isInf_of_isFinite h,
    hplain]
  exact String.toList_ofList

/-- A number with a point is canonical if both its parts are, whether a minus stands before it or
not. -/
theorem isCanonical_signText_append (v : Float) {ds fs : List Char} (hds : IsWholeText ds)
    (hfs : IsFractionText ('.' :: fs)) : IsCanonical (signText v ++ (ds ++ '.' :: fs)) := by
  have hpoint : ds ++ '.' :: fs ≠ ['0'] := by
    intro heq
    have hmem : '.' ∈ ds ++ '.' :: fs := List.mem_append_right _ List.mem_cons_self
    rw [heq, List.mem_singleton] at hmem
    cases hmem
  have hplain := IsCanonical.plain hds hfs
  have hminus := IsCanonical.minus hds hfs hpoint
  rw [signText]
  split
  · exact hminus
  · exact hplain

/-- What is shown for a finite double is the canonical text of its value. -/
theorem displays_readout (h : v.isFinite) : Displays v (readout v) := by
  have hshown : IsCanonical (readout v).toList ∧
      ('.' ∈ (readout v).toList ↔ ¬ ∃ n : ℤ, exactValue v = n) ∧
      ∀ n : ℤ, exactValue v = n → readout v = toString n := by
    rw [← isIntegral_iff h]
    by_cases hintegral : isIntegral v = true
    · obtain ⟨n, hn, hreadout⟩ := exists_readout_eq_toString h hintegral
      obtain ⟨hcanonical, hpoint⟩ := isCanonical_toString n
      rw [hreadout]
      refine ⟨hcanonical, iff_of_false hpoint (not_not.mpr hintegral), fun n' hn' ↦ ?_⟩
      rw [Int.cast_inj.mp (hn.symm.trans hn')]
    · obtain ⟨ds, fs, hreadout, hds, hfs⟩ := exists_toList_readout h hintegral
      rw [hreadout]
      refine ⟨isCanonical_signText_append v hds hfs, iff_of_true (by simp) hintegral, fun n hn ↦ ?_⟩
      exact absurd ((isIntegral_iff h).mpr ⟨n, hn⟩) hintegral
  obtain ⟨hcanonical, hpoint, hdigits⟩ := hshown
  refine ⟨hcanonical, fun hzero ↦ ?_, hcanonical.isDigit_or, hpoint, hdigits⟩
  rw [hzero] at hcanonical
  exact not_isCanonical_minusZero hcanonical

/-! ### What is shown behind a key -/

/-- Whatever succeeds as a calculation has a finite value. -/
theorem isFinite_of_outcome? {lib : Elementary} {entry : String} {key : Key}
    (h : key.outcome? lib entry = some (.ok v)) : v.isFinite := by
  have hchecked {x : Except Failure Float} (hx : x >>= ensureFinite = .ok v) : v.isFinite := by
    cases x with
    | error e => cases hx
    | ok w => exact (isFinite_of_ensureFinite hx).2
  cases key with
  | equals => exact hchecked (Option.some.inj h)
  | function f => exact hchecked (Option.some.inj h)
  | input c => cases h
  | clearEntry => cases h
  | clearAll => cases h

/-- Behind a key that calculates, the display shows the outcome of the calculation. -/
theorem exists_outcome? (lib : Elementary) (keys : List Key) {key : Key}
    (h : key.calculates = true) :
    ∃ outcome, key.outcome? lib (typedAtEnd keys) = some outcome ∧
      (Session.start.pressAll lib (keys ++ [key])).display = shown outcome := by
  rw [Session.pressAll_concat, ← Session.pending_pressAll lib keys]
  cases key with
  | equals => exact ⟨_, rfl, rfl⟩
  | function f => exact ⟨_, rfl, rfl⟩
  | input c => cases h
  | clearEntry => cases h
  | clearAll => cases h

/-- **The display shows an error or a canonical number.** After any keys on a new session, a key
that calculates starts a calculation with what has been typed before it. If the calculation fails,
the display shows the word for a failure. Otherwise its value is finite, and the display shows the
canonical text of this value, with a point exactly if there is a fractional part and with all digits
if there is none. -/
theorem display_canonical (lib : Elementary) (keys : List Key) {key : Key}
    (h : key.calculates = true) :
    ∃ outcome, key.outcome? lib (typedAtEnd keys) = some outcome ∧
      match outcome with
      | .error _ => (Session.start.pressAll lib (keys ++ [key])).display = "Error"
      | .ok v => v.isFinite = true ∧
          Displays v (Session.start.pressAll lib (keys ++ [key])).display := by
  obtain ⟨outcome, houtcome, hdisplay⟩ := exists_outcome? lib keys h
  refine ⟨outcome, houtcome, ?_⟩
  rw [hdisplay]
  cases outcome with
  | error e => rfl
  | ok v =>
    have hfinite := isFinite_of_outcome? houtcome
    exact ⟨hfinite, displays_readout hfinite⟩

/-- The reciprocal of what was typed last is shown with a point. -/
theorem display_canonical_eighth :
    (Key.function .reciprocal).calculates = true ∧
      Displays (Float.ofBits 0xBFC0000000000000)
        (Session.start.pressAll .machine
          ([Key.input '1', .equals, .input '-', .input '8'] ++
            [Key.function .reciprocal])).display ∧
      (Session.start.pressAll .machine
          ([Key.input '1', .equals, .input '-', .input '8'] ++
            [Key.function .reciprocal])).display =
        "-0.125" := by
  have hkey : (Key.function .reciprocal).calculates = true := rfl
  refine ⟨hkey, ?_, by decide +kernel⟩
  obtain ⟨outcome, houtcome, hshown⟩ := display_canonical .machine
    [.input '1', .equals, .input '-', .input '8'] hkey
  have hvalue : Key.outcome? .machine (typedAtEnd [.input '1', .equals, .input '-', .input '8'])
      (.function .reciprocal) = some (.ok (Float.ofBits 0xBFC0000000000000)) := by decide +kernel
  obtain rfl := Option.some.inj (hvalue.symm.trans houtcome)
  exact hshown.2

end DeskCalculator
