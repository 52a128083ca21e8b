import DeskCalculator.Literal
import DeskCalculator.Proofs.Number.Value

/-!
# Reading plain texts

The plain text of a decimal is a numeral, and the numeral has the value of the decimal. A numeral
that has a digit, and a digit behind the point if there is a point, is read back from its text: as
the numeral that an expression begins with, and as a literal with or without a sign before it.

## Main definitions

* `Numeral.WellFormed`: the numerals that can be read.
* `Numeral.HasDigits`: the numerals that can be mantissas of literals.
* `Numeral.StopsAt`: a text that makes a numeral before it no longer.
* `signMark`: the mark of a sign before a numeral.
* `Decimal.numeral`: the numeral that the plain text of a decimal is.

## Main results

* `Numeral.read?_append`: a numeral is read back in front of a text at which it stops.
* `Literal.readMantissa?_append`: a mantissa is read back in front of a text that is no part of it.
* `Literal.read?_signMark_text`: a numeral is read back as a literal with the sign before it.
* `Decimal.text_numeral`: the plain text of a decimal is the text of its numeral.
* `Decimal.value_decimal_numeral`: the numeral of a decimal has the value of the decimal.
-/

namespace DeskCalculator

/-- A numeral of digits, with a digit before the point or behind it, and with one behind it if there
is a point. -/
structure Numeral.WellFormed (n : Numeral) : Prop where
  /-- There are digits before the point. -/
  isDigit_whole : ∀ c ∈ n.whole, c.isDigit
  /-- There are digits behind the point. -/
  isDigit_fraction : ∀ c ∈ n.fraction, c.isDigit
  /-- A point has a digit behind it. -/
  fraction?_ne : n.fraction? ≠ some []
  /-- Without a point there is a digit. -/
  whole_ne_nil : n.fraction? = none → n.whole ≠ []

/-- A numeral of digits, of which there is one at least, before the point or behind it. -/
structure Numeral.HasDigits (n : Numeral) : Prop where
  /-- There are digits before the point. -/
  isDigit_whole : ∀ c ∈ n.whole, c.isDigit
  /-- There are digits behind the point. -/
  isDigit_fraction : ∀ c ∈ n.fraction, c.isDigit
  /-- There is a digit. -/
  ne_nil : n.whole ≠ [] ∨ n.fraction ≠ []

/-- The text begins with a digit. -/
def BeginsDigit (text : List Char) : Prop := ∃ c ∈ text.head?, c.isDigit = true

/-- The text begins with a point that has a digit behind it. -/
def BeginsFraction (text : List Char) : Prop := ∃ more, text = '.' :: more ∧ BeginsDigit more

/-- A numeral is made no longer by the text behind it: not by further digits, and not by a fraction
if it has none. -/
def Numeral.StopsAt (n : Numeral) (rest : List Char) : Prop :=
  ¬ BeginsDigit rest ∧ (n.fraction? = none → ¬ BeginsFraction rest)

theorem not_beginsDigit_iff {text : List Char} :
    ¬ BeginsDigit text ↔ ∀ c ∈ text.head?, c.isDigit = false := by
  simp [BeginsDigit]

/-- The text does not begin with a digit or a point. -/
def EndsNumeral (rest : List Char) : Prop := ∀ c ∈ rest.head?, c.isDigit = false ∧ c ≠ '.'

theorem endsNumeral_nil : EndsNumeral [] := nofun

/-- Every numeral stops at a text that begins with neither a digit nor a point. -/
theorem EndsNumeral.stopsAt {rest : List Char} (h : EndsNumeral rest) (n : Numeral) :
    n.StopsAt rest := by
  refine ⟨not_beginsDigit_iff.mpr fun c hc ↦ (h c hc).1, ?_⟩
  rintro - ⟨more, rfl, -⟩
  exact (h '.' rfl).2 rfl

theorem takeWhile_isDigit_append {ds rest : List Char} (hds : ∀ c ∈ ds, c.isDigit)
    (hrest : ∀ c ∈ rest.head?, c.isDigit = false) :
    (ds ++ rest).takeWhile Char.isDigit = ds ∧ (ds ++ rest).dropWhile Char.isDigit = rest := by
  rw [List.takeWhile_append_of_pos hds, List.dropWhile_append_of_pos hds]
  cases rest with
  | nil => exact ⟨List.append_nil ds, rfl⟩
  | cons c cs =>
    have hc := hrest c rfl
    rw [List.takeWhile_cons, List.dropWhile_cons, hc]
    exact ⟨List.append_nil ds, rfl⟩

namespace Numeral

variable {n : Numeral} {rest : List Char}

/-- Digits without a point are a numeral. -/
theorem WellFormed.of_whole {ds : List Char} (hds : ∀ c ∈ ds, c.isDigit) (hne : ds ≠ []) :
    WellFormed ⟨ds, none⟩ :=
  ⟨hds, List.forall_mem_nil _, (Option.some_ne_none []).symm, fun _ ↦ hne⟩

/-- Digits behind a point, and perhaps digits before it, are a numeral. -/
theorem WellFormed.of_fraction {ds fs : List Char} (hds : ∀ c ∈ ds, c.isDigit)
    (hfs : ∀ c ∈ fs, c.isDigit) (hne : fs ≠ []) : WellFormed ⟨ds, some fs⟩ :=
  ⟨hds, hfs, fun hnil ↦ hne (Option.some.inj hnil), (absurd · (Option.some_ne_none _))⟩

/-- Every character of a numeral is a digit or a point. -/
theorem WellFormed.of_mem_text (h : n.WellFormed) : ∀ c ∈ n.text, c.isDigit ∨ c = '.' := by
  intro c hc
  have hfraction := h.isDigit_fraction
  rw [text, List.mem_append] at hc
  rw [fraction] at hfraction
  rcases hc with hc | hc
  · exact .inl (h.isDigit_whole c hc)
  · cases hf : n.fraction? with
    | none => simp [hf] at hc
    | some ds =>
      rw [hf] at hc hfraction
      rcases List.mem_cons.mp hc with rfl | hc
      · exact .inr rfl
      · exact .inl (hfraction c hc)

/-- A numeral that can be read has a digit. -/
theorem WellFormed.hasDigits (h : n.WellFormed) : n.HasDigits := by
  refine ⟨h.isDigit_whole, h.isDigit_fraction, ?_⟩
  cases hf : n.fraction? with
  | none => exact .inl (h.whole_ne_nil hf)
  | some ds =>
    have hne : ds ≠ [] := fun hnil ↦ h.fraction?_ne (hnil ▸ hf)
    exact .inr (by rwa [fraction, hf])

theorem WellFormed.text_ne_nil (h : n.WellFormed) : n.text ≠ [] := by
  have hwhole := h.whole_ne_nil
  rw [text]
  cases hf : n.fraction? with
  | none => simpa using hwhole hf
  | some ds => simp

/-- The digits behind a point are read. -/
theorem readFraction?_append {ds : List Char} (hne : ds ≠ []) (hds : ∀ c ∈ ds, c.isDigit)
    (hrest : ¬ BeginsDigit rest) : readFraction? ('.' :: (ds ++ rest)) = some (ds, rest) := by
  obtain ⟨htake, hdrop⟩ := takeWhile_isDigit_append hds (not_beginsDigit_iff.mp hrest)
  rw [readFraction?, htake, hdrop, if_neg hne]

/-- A fraction is there to be read exactly where a text begins with one. -/
theorem readFraction?_eq_none_iff : readFraction? rest = none ↔ ¬ BeginsFraction rest := by
  unfold readFraction?
  split
  · next more =>
    have hbegins : BeginsFraction ('.' :: more) ↔ BeginsDigit more := by simp [BeginsFraction]
    rw [hbegins, BeginsDigit]
    cases more with
    | nil => simp
    | cons c more => by_cases hc : c.isDigit <;> simp [hc]
  · next hpoint => exact iff_of_true rfl fun ⟨more, heq, _⟩ ↦ hpoint more heq

/-- A numeral is read in front of a text at which it stops. -/
theorem read?_append (h : n.WellFormed) (hrest : n.StopsAt rest) :
    read? (n.text ++ rest) = some (n, rest) := by
  obtain ⟨whole, fraction?⟩ := n
  obtain ⟨hwhole, hfraction, hne, hwhole_ne⟩ := h
  obtain ⟨hdigit, hpoint⟩ := hrest
  cases fraction? with
  | none =>
    obtain ⟨htake, hdrop⟩ := takeWhile_isDigit_append hwhole (not_beginsDigit_iff.mp hdigit)
    have htext : text ⟨whole, none⟩ ++ rest = whole ++ rest := by rw [text, List.append_nil]
    rw [htext, read?, hdrop, readFraction?_eq_none_iff.mpr (hpoint rfl)]
    simp only [htake]
    rw [if_neg (hwhole_ne rfl)]
  | some ds =>
    have hds : ds ≠ [] := fun hnil ↦ hne (congrArg some hnil)
    have hpoint : ∀ c ∈ ('.' :: (ds ++ rest)).head?, c.isDigit = false := by simp
    obtain ⟨htake, hdrop⟩ := takeWhile_isDigit_append hwhole hpoint
    have htext : text ⟨whole, some ds⟩ ++ rest = whole ++ '.' :: (ds ++ rest) := by
      rw [text, List.append_assoc, List.cons_append]
    rw [htext, read?, hdrop, readFraction?_append hds hfraction hdigit]
    simp only [htake]

end Numeral

/-- The mark of a sign, and nothing for no sign. -/
def signMark : Option Sign → List Char
  | none => []
  | some .plus => ['+']
  | some .minus => ['-']

namespace Literal

variable {n : Numeral} {text rest : List Char}

/-- A mantissa is read in front of a text that begins with neither a digit nor a point. -/
theorem readMantissa?_append (h : n.HasDigits) (hrest : EndsNumeral rest) :
    readMantissa? (n.text ++ rest) = some (n, rest) := by
  obtain ⟨whole, fraction?⟩ := n
  obtain ⟨hwhole, hfraction, hne⟩ := h
  cases fraction? with
  | none =>
    have hne' : whole ≠ [] := hne.resolve_right (not_not.mpr rfl)
    obtain ⟨htake, hdrop⟩ := takeWhile_isDigit_append hwhole fun c hc ↦ (hrest c hc).1
    have htext : Numeral.text ⟨whole, none⟩ ++ rest = whole ++ rest := by
      rw [Numeral.text, List.append_nil]
    simp only [htext, readMantissa?, htake, hdrop]
    split
    · next more => exact absurd rfl (hrest '.' rfl).2
    · rw [if_neg hne']
  | some es =>
    change ∀ c ∈ es, c.isDigit at hfraction
    have hpoint : ∀ c ∈ ('.' :: (es ++ rest)).head?, c.isDigit = false := by simp
    obtain ⟨htake, hdrop⟩ := takeWhile_isDigit_append hwhole hpoint
    obtain ⟨htake', hdrop'⟩ := takeWhile_isDigit_append hfraction fun c hc ↦ (hrest c hc).1
    have htext : Numeral.text ⟨whole, some es⟩ ++ rest = whole ++ '.' :: (es ++ rest) := by
      rw [Numeral.text, List.append_assoc, List.cons_append]
    simp only [htext, readMantissa?, htake, hdrop, htake', hdrop']
    exact if_neg (not_and_or.mpr hne)

/-- Neither a digit nor a point is a sign. -/
theorem readSign_of_head {c : Char} (h : c.isDigit = true ∨ c = '.') (rest : List Char) :
    readSign (c :: rest) = (.plus, c :: rest) := by
  refine readSign_of_ne ?_ ?_ <;>
  · rintro rfl
    simp at h

/-- A sign is read in front of a text that begins with a digit or a point. -/
theorem readSign_append {sign? : Option Sign}
    (h : ∃ c ∈ text.head?, c.isDigit = true ∨ c = '.') :
    readSign (signMark sign? ++ text) = (sign?.getD .plus, text) := by
  obtain ⟨c, hc, hfirst⟩ := h
  obtain ⟨rest, rfl⟩ := List.head?_eq_some_iff.mp hc
  rcases sign? with _ | _ | _
  · exact readSign_of_head hfirst rest
  · rfl
  · rfl

/-- The text of a mantissa begins with a digit or a point. -/
theorem head_of_hasDigits (h : n.HasDigits) (rest : List Char) :
    ∃ c ∈ (n.text ++ rest).head?, c.isDigit = true ∨ c = '.' := by
  obtain ⟨whole, fraction?⟩ := n
  obtain ⟨hwhole, -, hne⟩ := h
  cases whole with
  | cons c cs => exact ⟨c, rfl, .inl (hwhole c List.mem_cons_self)⟩
  | nil =>
    cases fraction? with
    | none => exact absurd rfl (hne.resolve_left (not_not.mpr rfl))
    | some es => exact ⟨'.', rfl, .inr rfl⟩

/-- A numeral is read as a literal with the sign before it. -/
theorem read?_signMark_text (h : n.WellFormed) (sign? : Option Sign) :
    read? (signMark sign? ++ n.text) = some ⟨sign?.getD .plus, n, 0⟩ := by
  have hhead := head_of_hasDigits h.hasDigits []
  have hmantissa := readMantissa?_append h.hasDigits endsNumeral_nil
  rw [List.append_nil] at hhead hmantissa
  rw [read?, readSign_append hhead]
  simp only [hmantissa]
  rfl

/-- A literal without an exponent has the value of its numeral, with its sign. -/
theorem value_of_exponent_eq_zero (sign : Sign) (n : Numeral) :
    value ⟨sign, n, 0⟩ = sign.apply n.value := by
  rw [value, decimal, Int.add_zero]
  rfl

end Literal

/-- Spaces in front of a text without spaces are dropped. -/
theorem dropWhile_space_append {text : List Char} (h : ∀ c ∈ text, c ≠ ' ') (hne : text ≠ [])
    (k : Nat) (rest : List Char) :
    (List.replicate k ' ' ++ (text ++ rest)).dropWhile (· = ' ') = text ++ rest := by
  have hspaces : ∀ c ∈ List.replicate k ' ', decide (c = ' ') = true := fun c hc ↦
    decide_eq_true (List.eq_of_mem_replicate hc)
  rw [List.dropWhile_append_of_pos hspaces]
  obtain ⟨c, cs, rfl⟩ := List.exists_cons_of_ne_nil hne
  rw [List.cons_append, List.dropWhile_cons, if_neg (by simpa using h c List.mem_cons_self)]

/-- A text without spaces is what is left without the spaces around it. -/
theorem trimSpaces_append {text : List Char} (h : ∀ c ∈ text, c ≠ ' ') (hne : text ≠ [])
    (before after : Nat) :
    trimSpaces (List.replicate before ' ' ++ text ++ List.replicate after ' ') = text := by
  have hreverse : ∀ c ∈ text.reverse, c ≠ ' ' := by simpa using h
  have hback := dropWhile_space_append hreverse (by simpa using hne) after []
  rw [List.append_nil] at hback
  rw [trimSpaces, List.append_assoc, dropWhile_space_append h hne before, List.reverse_append,
    List.reverse_replicate, hback, List.reverse_reverse]

/-- The decimal digits of a number are digits. -/
theorem isDigit_of_mem_toDigits (n : Nat) : ∀ c ∈ Nat.toDigits 10 n, c.isDigit := fun _ ↦
  Nat.isDigit_of_mem_toDigits (by decide) (by decide)

namespace Decimal

/-- The numeral that the plain text of a decimal is. -/
def numeral (d : Decimal) : Numeral :=
  let places := (-d.exponent).toNat
  if 0 ≤ d.exponent then ⟨d.digits ++ List.replicate d.exponent.toNat '0', none⟩
  else if places < d.digits.length then
    ⟨d.digits.take (d.digits.length - places), some (d.digits.drop (d.digits.length - places))⟩
  else ⟨['0'], some (List.replicate (places - d.digits.length) '0' ++ d.digits)⟩

/-- The plain text of a decimal is the text of its numeral. -/
theorem text_numeral (d : Decimal) : d.numeral.text = d.plain := by
  rw [numeral, plain, pointed]
  split
  · exact List.append_nil _
  · split <;> rfl

theorem isDigit_of_mem_digits (d : Decimal) : ∀ c ∈ d.digits, c.isDigit :=
  isDigit_of_mem_toDigits d.coefficient

theorem isDigit_of_mem_replicate (n : Nat) : ∀ c ∈ List.replicate n '0', c.isDigit := by
  intro c hc
  rw [List.eq_of_mem_replicate hc]
  rfl

theorem wellFormed_numeral (d : Decimal) : d.numeral.WellFormed := by
  have hdigits := d.isDigit_of_mem_digits
  have hzeros := isDigit_of_mem_replicate
  have hne : d.digits ≠ [] := Nat.toDigits_ne_nil
  have hlength : 0 < d.digits.length := List.length_pos_iff.mpr hne
  rw [numeral]
  split
  · refine .of_whole ?_ (List.append_ne_nil_of_left_ne_nil hne _)
    rw [List.forall_mem_append]
    exact ⟨hdigits, hzeros _⟩
  · next hneg =>
    split
    · refine .of_fraction (fun c hc ↦ hdigits c (List.mem_of_mem_take hc))
        (fun c hc ↦ hdigits c (List.mem_of_mem_drop hc)) ?_
      rw [Ne, List.drop_eq_nil_iff]
      omega
    · refine .of_fraction (by simp) ?_ (List.append_ne_nil_of_right_ne_nil _ hne)
      rw [List.forall_mem_append]
      exact ⟨hzeros _, hdigits⟩

/-- The digits of a decimal are its coefficient. -/
theorem ofDigitChars_digits (d : Decimal) : Nat.ofDigitChars 10 d.digits 0 = d.coefficient :=
  Nat.ofDigitChars_ten_toDigits

/-- The numeral of a decimal has the value of the decimal. -/
theorem value_decimal_numeral (d : Decimal) : d.numeral.decimal.value = d.value := by
  have hdigits := d.ofDigitChars_digits
  rw [numeral]
  split
  · next hpos =>
    obtain ⟨n, hn⟩ := Int.eq_ofNat_of_zero_le hpos
    have hcoefficient : Nat.ofDigitChars 10 (d.digits ++ List.replicate n '0') 0 =
        d.coefficient * 10 ^ n := by
      rw [Nat.ofDigitChars_append, hdigits, Nat.ofDigitChars_replicate_zero, Nat.mul_comm]
    have hdecimal : Numeral.decimal ⟨d.digits ++ List.replicate n '0', none⟩ =
        ⟨d.coefficient * 10 ^ n, 0⟩ := by
      rw [Numeral.decimal, Numeral.fraction, Option.getD_none, List.append_nil, hcoefficient]
      rfl
    rw [hn, Int.toNat_natCast, hdecimal, value_mul_ten_pow, value, value, hn]
  · next hneg =>
    split
    · have hexponent : -((d.digits.drop (d.digits.length - (-d.exponent).toNat)).length : Int) =
          d.exponent := by
        rw [List.length_drop]
        omega
      rw [Numeral.decimal, Numeral.fraction, Option.getD_some, List.take_append_drop, hdigits,
        hexponent]
    · have hexponent : -((List.replicate ((-d.exponent).toNat - d.digits.length) '0' ++
          d.digits).length : Int) = d.exponent := by
        rw [List.length_append, List.length_replicate]
        omega
      have hcoefficient (n : Nat) :
          Nat.ofDigitChars 10 (['0'] ++ (List.replicate n '0' ++ d.digits)) 0 = d.coefficient := by
        rw [← List.append_assoc, Nat.ofDigitChars_append, List.singleton_append,
          ← List.replicate_succ, Nat.ofDigitChars_replicate_zero, Nat.mul_zero, hdigits]
      rw [Numeral.decimal, Numeral.fraction, Option.getD_some, hcoefficient, hexponent]

/-- The numeral of a decimal denotes the same double as the decimal. -/
theorem value_numeral (d : Decimal) : d.numeral.value = d.toFloat := by
  rw [Numeral.value, toFloat, toFloat, magnitude_eq_of_value_eq d.value_decimal_numeral]

end Decimal

end DeskCalculator
