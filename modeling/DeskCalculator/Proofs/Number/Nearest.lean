import DeskCalculator.Operator
import DeskCalculator.Proofs.Number.Exact

/-!
# Decimals are rounded to the nearest double

The magnitude that is computed for a quotient is the nearest one. The quotient lies between two
neighbouring magnitudes, and since the values of magnitudes increase, no other one is nearer than
both. Half-way between the two the even one is taken. Infinity takes part as if it were `2^1024`,
so what lies half a step or more above the largest finite double becomes infinite. A sign is kept,
even that of a zero.

## Main definitions

* `Magnitude.IsNearest`: the magnitude to which a number is rounded.
* `IsRounded`: the double to which a number is rounded.

## Main results

* `Magnitude.isNearest_nearest`: rounding a quotient gives the nearest magnitude.
* `Magnitude.IsNearest.isRounded`: the double of the nearest magnitude is the nearest double.
* `Decimal.isRounded_apply_toFloat`: a decimal with a sign denotes the double to which it is
  rounded.
-/

namespace DeskCalculator

/-! ### Magnitudes -/

namespace Magnitude

/-- A number is rounded to a magnitude if no other one is nearer, and of two that are nearest to the
even one. -/
structure IsNearest (q : ℚ) (m : Nat) : Prop where
  /-- It is the magnitude of a finite double or of infinity. -/
  le_infinite : m ≤ infinite
  /-- No other magnitude is nearer. -/
  dist_le : ∀ m' ≤ infinite, |q - value m| ≤ |q - value m'|
  /-- If another magnitude is as near, this one is even. -/
  even : ∀ m' ≤ infinite, |q - value m| = |q - value m'| → m' = m ∨ m % 2 = 0

variable {q : ℚ} {m m' : Nat}

/-- A number is farther from the magnitudes below a lower neighbour than from the neighbour. -/
theorem dist_eq_of_le (hlower : value m ≤ q) (h : m' ≤ m) :
    |q - value m'| = |q - value m| + (value m - value m') := by
  have hle : value m' ≤ value m := value_strictMono.monotone h
  rw [abs_of_nonneg (by linarith), abs_of_nonneg (by linarith), sub_add_sub_cancel]

/-- A number is farther from the magnitudes above an upper neighbour than from the neighbour. -/
theorem dist_eq_of_ge (hupper : q ≤ value m) (h : m ≤ m') :
    |q - value m'| = |q - value m| + (value m' - value m) := by
  have hle : value m ≤ value m' := value_strictMono.monotone h
  rw [abs_of_nonpos (by linarith), abs_of_nonpos (by linarith), neg_sub, neg_sub,
    sub_add_sub_cancel']

/-- From infinity on, infinity is nearest. -/
theorem isNearest_infinite (h : value infinite ≤ q) : IsNearest q infinite := by
  refine ⟨le_rfl, fun m' hm' ↦ ?_, fun _ _ _ ↦ .inr (by decide)⟩
  have hle := value_strictMono.monotone hm'
  rw [dist_eq_of_le h hm']
  linarith

/-- The nearer one of two neighbours is the nearest magnitude, and the even one if both are equally
near. -/
theorem isNearest_neighbour {r : Nat} (hm : m < infinite) (hlower : value m ≤ q)
    (hupper : q ≤ value (m + 1)) (hr : r = m ∨ r = m + 1)
    (hle : |q - value r| ≤ |q - value m| ∧ |q - value r| ≤ |q - value (m + 1)|)
    (heven : |q - value m| = |q - value (m + 1)| → r % 2 = 0) : IsNearest q r := by
  refine ⟨by omega, fun m' _ ↦ ?_, fun m' _ htie ↦ ?_⟩
  · rcases Nat.lt_or_ge m m' with h | h
    · have hmono := value_strictMono.monotone (Nat.succ_le_of_lt h)
      rw [dist_eq_of_ge hupper h]
      linarith
    · have hmono := value_strictMono.monotone h
      rw [dist_eq_of_le hlower h]
      linarith
  · rcases Nat.lt_or_ge m m' with h | h
    · have hmono := value_strictMono.monotone (Nat.succ_le_of_lt h)
      rw [dist_eq_of_ge hupper h] at htie
      have hself : m' = m + 1 := value_strictMono.injective (by linarith)
      rcases hr with rfl | rfl
      · exact .inr (heven (by linarith))
      · exact .inl hself
    · have hmono := value_strictMono.monotone h
      rw [dist_eq_of_le hlower h] at htie
      have hself : m' = m := value_strictMono.injective (by linarith)
      rcases hr with rfl | rfl
      · exact .inl hself
      · exact .inr (heven (by linarith))

/-- All but the upper 53 bits are dropped: what is left is less than `2^53`, and it has its leading
bit at the place of `2^52` unless nothing is dropped. -/
theorem upperBits (n : Nat) :
    n / 2 ^ (n.log2 - 52) < 2 ^ 53 ∧ (n.log2 - 52 = 0 ∨ 2 ^ 52 ≤ n / 2 ^ (n.log2 - 52)) := by
  have hlt : n < 2 ^ (n.log2 + 1) := Nat.lt_log2_self
  rcases Nat.lt_or_ge 52 n.log2 with h | h
  · have hne : n ≠ 0 := by
      rintro rfl
      simp at h
    have hlower : 2 ^ 52 * 2 ^ (n.log2 - 52) ≤ n := by
      rw [← pow_add, Nat.add_sub_cancel' h.le]
      exact Nat.log2_self_le hne
    have hupper : n < 2 ^ 53 * 2 ^ (n.log2 - 52) := by
      rwa [← pow_add, Nat.add_comm, ← Nat.sub_add_comm h.le]
    exact ⟨(Nat.div_lt_iff_lt_mul (Nat.two_pow_pos _)).mpr hupper,
      .inr ((Nat.le_div_iff_mul_le (Nat.two_pow_pos _)).mpr hlower)⟩
  · have hzero : n.log2 - 52 = 0 := Nat.sub_eq_zero_of_le h
    have hpow : 2 ^ (n.log2 + 1) ≤ 2 ^ 53 := Nat.pow_le_pow_right Nat.two_pos (by omega)
    rw [hzero, pow_zero, Nat.div_one]
    exact ⟨Nat.lt_of_lt_of_le hlt hpow, .inl rfl⟩

/-- A quotient lies between two neighbours, of which the lower one has all but the upper 53 bits
dropped. What is left over tells how far it is from either of them. -/
theorem value_between {num den : Nat} (hden : 0 < den) {d k r : Nat} (hk : k < 2 ^ 53)
    (hd : d = 0 ∨ 2 ^ 52 ≤ k) (hscaled : num * unitsInOne = den * 2 ^ d * k + r) :
    (num / den : ℚ) - value (d * 2 ^ 52 + k) = r / (den * unitsInOne) ∧
      value (d * 2 ^ 52 + k + 1) - (num / den : ℚ) =
        ((den * 2 ^ d : Nat) - r) / (den * unitsInOne) := by
  have hden' : (den : ℚ) ≠ 0 := Nat.cast_ne_zero.mpr hden.ne'
  have hunits : (unitsInOne : ℚ) ≠ 0 := unitsInOne_cast_pos.ne'
  have hlower : units (d * 2 ^ 52 + k) = k * 2 ^ d := units_mul_add hd hk.le
  have hupper : units (d * 2 ^ 52 + k + 1) = (k + 1) * 2 ^ d := by
    rw [Nat.add_assoc]
    exact units_mul_add (hd.imp_right (Nat.le_trans · (Nat.le_succ k))) hk
  have hcast : (num * unitsInOne : ℚ) = den * 2 ^ d * k + r := by exact_mod_cast hscaled
  rw [value, value, hlower, hupper]
  push_cast
  generalize (unitsInOne : ℚ) = u at *
  constructor
  · field_simp
    linarith
  · field_simp
    linarith

/-- A half decides for the lower or the upper whole number, and for the even one of the two if it is
exactly a half. -/
theorem halfEven_cases (k r d : Nat) :
    (halfEven k r d = k ∧ 2 * r ≤ d ∨ halfEven k r d = k + 1 ∧ d ≤ 2 * r) ∧
      (2 * r = d → halfEven k r d % 2 = 0) := by
  rw [halfEven]
  split
  · next h =>
    rw [Nat.compare_eq_lt] at h
    omega
  · next h =>
    rw [Nat.compare_eq_eq] at h
    omega
  · next h =>
    rw [Nat.compare_eq_gt] at h
    omega

/-- Between two neighbours, of which the lower one has `k` for the last bits of its significand, the
remainder decides which of them is nearest. -/
theorem isNearest_halfEven {b k r step : Nat} {c : ℚ} (hb : b % 2 = 0) (hm : b + k < infinite)
    (hr : r < step) (hc : 0 < c) (hlower : q - value (b + k) = r / c)
    (hupper : value (b + k + 1) - q = (step - r) / c) : IsNearest q (b + halfEven k r step) := by
  have hr' : (0 : ℚ) ≤ step - r := sub_nonneg.mpr (Nat.cast_le.mpr hr.le)
  have hbelow : 0 ≤ q - value (b + k) := hlower ▸ div_nonneg (Nat.cast_nonneg r) hc.le
  have habove : 0 ≤ value (b + k + 1) - q := hupper ▸ div_nonneg hr' hc.le
  have hdist : |q - value (b + k)| = r / c := by rw [abs_of_nonneg hbelow, hlower]
  have hdist' : |q - value (b + k + 1)| = (step - r) / c := by
    rw [abs_sub_comm, abs_of_nonneg habove, hupper]
  have hle : (r / c : ℚ) ≤ (step - r) / c ↔ 2 * r ≤ step := by
    rw [div_le_div_iff_of_pos_right hc, le_sub_iff_add_le, ← two_mul]
    exact_mod_cast Iff.rfl
  have hge : (step - r : ℚ) / c ≤ r / c ↔ step ≤ 2 * r := by
    rw [div_le_div_iff_of_pos_right hc, sub_le_iff_le_add, ← two_mul]
    exact_mod_cast Iff.rfl
  have htie : |q - value (b + k)| = |q - value (b + k + 1)| → (b + halfEven k r step) % 2 = 0 := by
    intro h
    rw [hdist, hdist'] at h
    have heven := (halfEven_cases k r step).2 (le_antisymm (hle.mp h.le) (hge.mp h.ge))
    omega
  rcases (halfEven_cases k r step).1 with ⟨hk, h⟩ | ⟨hk, h⟩
  · refine isNearest_neighbour hm (by linarith) (by linarith) (.inl (by rw [hk])) ?_ htie
    rw [hk, hdist, hdist']
    exact ⟨le_rfl, hle.mpr h⟩
  · refine isNearest_neighbour hm (by linarith) (by linarith) (.inr (by rw [hk]; rfl)) ?_ htie
    rw [hk, ← Nat.add_assoc, hdist, hdist']
    exact ⟨hge.mpr h, le_rfl⟩

/-- Rounding a quotient gives the nearest magnitude. -/
theorem isNearest_nearest (num : Nat) {den : Nat} (hden : 0 < den) :
    IsNearest (num / den) (nearest num den) := by
  have hplace : 0x10000000000000 = 2 ^ 52 := rfl
  simp only [nearest, two_pow_eq, hplace]
  obtain ⟨hk, hd⟩ := upperBits (num * unitsInOne / den)
  rw [Nat.div_div_eq_div_mul] at hk hd
  generalize (num * unitsInOne / den).log2 - 52 = d at *
  have hr := Nat.mod_lt (num * unitsInOne) (Nat.mul_pos hden (Nat.two_pow_pos d))
  have hpos : (0 : ℚ) < den * unitsInOne := mul_pos (Nat.cast_pos.mpr hden) unitsInOne_cast_pos
  obtain ⟨hlower, hupper⟩ := value_between hden hk hd (Nat.div_add_mod (num * unitsInOne) _).symm
  rcases Nat.lt_or_ge (d * 2 ^ 52 + num * unitsInOne / (den * 2 ^ d)) infinite with hm | hm
  · have hnearest := isNearest_halfEven (by omega) hm hr hpos hlower hupper
    rwa [Nat.min_eq_right hnearest.le_infinite]
  · -- The lower neighbour is infinity already, or beyond it.
    have hge := value_strictMono.monotone hm
    have hrest : (0 : ℚ) ≤ (num * unitsInOne % (den * 2 ^ d) : Nat) / (den * unitsInOne) :=
      div_nonneg (Nat.cast_nonneg _) hpos.le
    have hinfinite := halfEven_le (num * unitsInOne / (den * 2 ^ d))
      (num * unitsInOne % (den * 2 ^ d)) (den * 2 ^ d)
    rw [Nat.min_eq_left (by omega)]
    exact isNearest_infinite (by linarith)

end Magnitude

/-! ### Doubles -/

/-- Half a step above the largest finite double. From here on numbers are rounded to infinity. -/
def overflow : ℚ := 2 ^ 1024 - 2 ^ 970

/-- A number is rounded to a double: to an infinity if it is too large, and otherwise to the nearest
finite double, or to the even one of two. -/
structure IsRounded (q : ℚ) (v : Float) : Prop where
  /-- It is a number. -/
  isNaN_eq : v.isNaN = false
  /-- It is infinite exactly from half a step above the largest finite double on. -/
  isInf_iff : v.isInf = true ↔ overflow ≤ |q|
  /-- No finite double is nearer. -/
  dist_le : v.isFinite → ∀ w : Float, w.isFinite → |q - exactValue v| ≤ |q - exactValue w|
  /-- If another finite double is as near, this one is even. -/
  even : v.isFinite → ∀ w : Float, w.isFinite → |q - exactValue v| = |q - exactValue w| →
    exactValue w = exactValue v ∨ Magnitude.ofFloat v % 2 = 0

namespace Magnitude

variable {q : ℚ} {m : Nat}

theorem value_infinite : value infinite = 2 ^ 1024 := by
  have hm : infinite = 2046 * 2 ^ 52 + 2 ^ 52 := by decide
  have hunits : units infinite = 2 ^ 52 * 2 ^ 2046 := by
    rw [hm]
    exact units_mul_add (.inr le_rfl) (by decide)
  rw [value, hunits, unitsInOne_eq, ← pow_add, Nat.cast_pow, Nat.cast_pow, Nat.cast_ofNat,
    div_eq_iff (pow_ne_zero _ two_ne_zero), ← pow_add]

/-- The largest finite magnitude is a step below infinity. -/
theorem value_largest : value (infinite - 1) = value infinite - 2 * 2 ^ 970 := by
  have hm : infinite - 1 = 2045 * 2 ^ 52 + (2 ^ 53 - 1) := by decide
  have hunits : units (infinite - 1) = (2 ^ 53 - 1) * 2 ^ 2045 := by
    rw [hm]
    exact units_mul_add (.inr (by decide)) (by decide)
  have hpow : (2 : ℚ) ^ 2045 = 2 * 2 ^ 970 * 2 ^ 1074 := by rw [← pow_succ', ← pow_add]
  have hpow' : (2 : ℚ) ^ 1024 = 2 ^ 53 * (2 * 2 ^ 970) := by rw [← pow_succ', ← pow_add]
  have hmantissa : ((2 ^ 53 - 1 : Nat) : ℚ) = 2 ^ 53 - 1 := by norm_num
  rw [value_infinite, value, hunits, unitsInOne_eq, Nat.cast_mul, Nat.cast_pow, Nat.cast_pow,
    Nat.cast_ofNat, div_eq_iff (pow_ne_zero _ two_ne_zero), hpow, hpow', ← mul_assoc, hmantissa,
    sub_mul, one_mul]

/-- What is rounded to infinity lies half a step or more above the largest finite magnitude. -/
theorem IsNearest.eq_infinite_iff (h : IsNearest q m) : m = infinite ↔ overflow ≤ q := by
  have hpos : (0 : ℚ) < 2 ^ 970 := pow_pos two_pos _
  have hlargest := value_largest
  rw [overflow, ← value_infinite]
  generalize (2 : ℚ) ^ 970 = x at *
  constructor
  · rintro rfl
    have hlast := h.dist_le (infinite - 1) (Nat.sub_le _ _)
    by_contra! hlt
    rw [abs_of_nonpos (by linarith), hlargest] at hlast
    rcases abs_cases (q - (value infinite - 2 * x)) with ⟨heq, -⟩ | ⟨heq, -⟩ <;> linarith
  · intro hle
    by_contra hne
    have hm : m ≤ infinite - 1 := Nat.le_sub_one_of_lt (Nat.lt_of_le_of_ne h.le_infinite hne)
    have hvalue : value m ≤ value (infinite - 1) := value_strictMono.monotone hm
    have hself := h.dist_le infinite le_rfl
    rw [abs_of_nonneg (by linarith)] at hself
    rcases abs_cases (q - value infinite) with ⟨heq, -⟩ | ⟨heq, -⟩
    · linarith
    · -- The largest finite magnitude is as near only half-way, and it is odd.
      have htie := h.even infinite le_rfl (by rw [abs_of_nonneg (by linarith)]; linarith)
      have hlast : m = infinite - 1 := value_strictMono.injective (by linarith)
      rw [hlast] at htie
      revert htie
      decide

/-- The double of a finite magnitude is finite, and has this magnitude and its value. -/
theorem toFloat_isFinite (h : m < infinite) : (toFloat m).isFinite ∧ ofFloat (toFloat m) = m := by
  obtain ⟨e, f, he, hm, hdouble⟩ := exists_toFloat_eq_double h
  rw [hdouble, ofFloat_double he]
  exact ⟨isFinite_double he, hm⟩

theorem exactValue_toFloat (h : m < infinite) : exactValue (toFloat m) = value m := by
  obtain ⟨hfinite, hm⟩ := toFloat_isFinite h
  have hsign := (toFloat_isNumber h.le).2
  rw [exactValue_eq hfinite, hm, hsign]
  exact one_mul _

/-- A nonnegative number is no farther from the value of a magnitude than from a double of that
magnitude. -/
theorem dist_value_ofFloat_le {w : Float} (hq : 0 ≤ q) (hw : w.isFinite) :
    |q - value (ofFloat w)| ≤ |q - exactValue w| := by
  have hnonneg := value_nonneg (ofFloat w)
  rw [exactValue_eq hw]
  split
  · rw [abs_of_nonneg (a := q - _ * _) (by linarith)]
    exact abs_le.mpr ⟨by linarith, by linarith⟩
  · rw [one_mul]

/-- Of two doubles with the nearest magnitude but different signs, the negative one is only as near
as the other if it is a zero. -/
theorem IsNearest.exactValue_eq_value {w : Float} (h : IsNearest q m) (hq : 0 ≤ q)
    (hw : w.isFinite) (hm : ofFloat w = m) (htie : |q - value m| = |q - exactValue w|) :
    exactValue w = value m := by
  have hnonneg := value_nonneg m
  have hzero := h.dist_le 0 (Nat.zero_le _)
  rw [exactValue_eq hw, hm] at htie ⊢
  split at htie
  · rw [if_pos ‹_›]
    rw [abs_of_nonneg (a := q - _ * _) (by linarith)] at htie
    rw [value_zero, sub_zero, abs_of_nonneg hq] at hzero
    rcases abs_cases (q - value m) with ⟨heq, -⟩ | ⟨heq, -⟩ <;> linarith
  · rw [if_neg ‹_›, one_mul]

/-- A nonnegative number is rounded to the double of the nearest magnitude. -/
theorem IsNearest.isRounded (h : IsNearest q m) (hq : 0 ≤ q) : IsRounded q (toFloat m) := by
  have hoverflow := h.eq_infinite_iff
  have hnumber := (toFloat_isNumber h.le_infinite).1
  rcases Nat.lt_or_eq_of_le h.le_infinite with hlt | rfl
  · obtain ⟨hfinite, hm⟩ := toFloat_isFinite hlt
    have hvalue := exactValue_toFloat hlt
    refine ⟨hnumber, ?_, fun _ w hw ↦ ?_, fun _ w hw htie ↦ ?_⟩
    · rw [abs_of_nonneg hq, ← hoverflow, isInf_of_isFinite hfinite]
      exact iff_of_false Bool.false_ne_true hlt.ne
    · rw [hvalue]
      exact (h.dist_le _ (ofFloat_lt_infinite hw).le).trans (dist_value_ofFloat_le hq hw)
    · rw [hvalue] at htie ⊢
      rw [hm]
      have hle := h.dist_le _ (ofFloat_lt_infinite hw).le
      have hle' := dist_value_ofFloat_le hq hw
      rcases h.even _ (ofFloat_lt_infinite hw).le (by linarith) with heq | heven
      · exact .inl (h.exactValue_eq_value hq hw heq htie)
      · exact .inr heven
  · have hinfinite : (toFloat infinite).isFinite = false := by decide +kernel
    refine ⟨hnumber, ?_, ?_, ?_⟩
    · rw [abs_of_nonneg hq, ← hoverflow]
      exact iff_of_true (by decide +kernel) rfl
    · rw [hinfinite]
      exact nofun
    · rw [hinfinite]
      exact nofun

end Magnitude

/-- A finite double and its negation have one magnitude, and opposite values. -/
theorem isFinite_neg {v : Float} (h : v.isFinite) : (-v).isFinite ∧
    Magnitude.ofFloat (-v) = Magnitude.ofFloat v ∧ exactValue (-v) = -exactValue v := by
  obtain ⟨s, e, f, he, rfl⟩ := exists_double h
  have hsign : (-s).apply 1 = -s.apply 1 := by cases s <;> rfl
  rw [neg_double he, Magnitude.ofFloat_double he, Magnitude.ofFloat_double he,
    exactValue_double he, exactValue_double he, hsign, Int.cast_neg, neg_mul]
  exact ⟨isFinite_double he, rfl, rfl⟩

/-- Opposite numbers are rounded to opposite doubles. -/
theorem IsRounded.neg {q : ℚ} {v : Float} (h : IsRounded q v) (hv : v.isFinite) :
    IsRounded (-q) (-v) := by
  obtain ⟨hfinite, hmagnitude, hvalue⟩ := isFinite_neg hv
  have hdist (x : ℚ) : |-q - -x| = |q - x| := by rw [← neg_sub', abs_neg]
  have hopposite {w : Float} (hw : w.isFinite) : |-q - exactValue w| = |q - exactValue (-w)| := by
    rw [← hdist, (isFinite_neg hw).2.2, neg_neg]
  refine ⟨isNaN_of_isFinite hfinite, ?_, fun _ w hw ↦ ?_, fun _ w hw htie ↦ ?_⟩
  · rw [abs_neg, ← h.isInf_iff, isInf_of_isFinite hfinite, isInf_of_isFinite hv]
  · rw [hvalue, hdist, hopposite hw]
    exact h.dist_le hv _ (isFinite_neg hw).1
  · rw [hvalue, hdist, hopposite hw] at htie
    have hcases := h.even hv _ (isFinite_neg hw).1 htie
    rwa [(isFinite_neg hw).2.2, neg_eq_iff_eq_neg, ← hvalue, ← hmagnitude] at hcases

/-- A number with a sign. -/
def Sign.signed : Sign → ℚ → ℚ
  | .plus, q => q
  | .minus, q => -q

/-- A number with a sign is rounded to the double of the nearest magnitude with this sign. -/
theorem Magnitude.IsNearest.isRounded_apply {q : ℚ} {m : Nat} (h : IsNearest q m) (hq : 0 ≤ q)
    (sign : Sign) : IsRounded (sign.signed q) (sign.apply (toFloat m)) ∧
      isNegative (sign.apply (toFloat m)) = decide (sign = .minus) := by
  have hrounded := h.isRounded hq
  cases sign with
  | plus => exact ⟨hrounded, (toFloat_isNumber h.le_infinite).2⟩
  | minus =>
    rcases Nat.lt_or_eq_of_le h.le_infinite with hlt | rfl
    · refine ⟨hrounded.neg (toFloat_isFinite hlt).1, ?_⟩
      obtain ⟨e, f, he, -, hdouble⟩ := exists_toFloat_eq_double hlt
      rw [hdouble, Sign.apply, neg_double he, isNegative_double he]
      rfl
    · have hfinite : (-toFloat infinite).isFinite = false := by decide +kernel
      have hinfinite : (-toFloat infinite).isInf = true := by decide +kernel
      have hoverflow := h.eq_infinite_iff.mp rfl
      refine ⟨⟨by decide +kernel, ?_, ?_, ?_⟩, by decide +kernel⟩
      · rw [Sign.signed, abs_neg, abs_of_nonneg hq]
        exact iff_of_true hinfinite hoverflow
      · rw [Sign.apply, hfinite]
        exact nofun
      · rw [Sign.apply, hfinite]
        exact nofun

namespace Decimal

/-- The magnitude of a decimal is the nearest one. -/
theorem isNearest_magnitude (d : Decimal) : Magnitude.IsNearest d.value d.magnitude := by
  rw [magnitude_eq_nearest, value_eq_div]
  exact Magnitude.isNearest_nearest _ d.denominator_pos

theorem value_nonneg (d : Decimal) : 0 ≤ d.value :=
  mul_nonneg (Nat.cast_nonneg _) (zpow_nonneg (by norm_num) _)

/-- A decimal with a sign denotes the double to which it is rounded. -/
theorem isRounded_apply_toFloat (d : Decimal) (sign : Sign) :
    IsRounded (sign.signed d.value) (sign.apply d.toFloat) ∧
      isNegative (sign.apply d.toFloat) = decide (sign = .minus) :=
  d.isNearest_magnitude.isRounded_apply d.value_nonneg sign

end Decimal

end DeskCalculator
