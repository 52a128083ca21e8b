import DeskCalculator.Readout
import DeskCalculator.Proofs.Number.Nearest

/-!
# Whole numbers among the doubles

A finite double is a whole number if its units make up ones without a rest. Where a whole number is
rounded to a finite double, that double is a whole number again: either nothing is lost, or only
places above the point are left. So a decimal without places behind the point denotes a whole
number, and the shortest decimal of any other double has such places. It has no more of them than it
needs, since no shortest decimal ends with a zero.

## Main results

* `Magnitude.unitsInOne_dvd_nearest`: whole numbers are rounded to whole numbers.
* `Decimal.exponent_shortest_neg`: the shortest decimal of a double that is no whole number.
* `isIntegral_iff`, `exactValue_of_isIntegral`: the doubles that are whole numbers.
-/

namespace DeskCalculator

namespace Magnitude

/-- Whole numbers are rounded to whole numbers. -/
theorem unitsInOne_dvd_nearest {n : Nat} (h : nearest n 1 < infinite) :
    unitsInOne ∣ units (nearest n 1) := by
  have hplace : 0x10000000000000 = 2 ^ 52 := rfl
  simp only [nearest, two_pow_eq, hplace, Nat.div_one, Nat.one_mul] at h ⊢
  obtain ⟨hk, hd⟩ := upperBits (n * unitsInOne)
  generalize (n * unitsInOne).log2 - 52 = d at *
  have hlower := halfEven_le (n * unitsInOne / 2 ^ d) (n * unitsInOne % 2 ^ d) (2 ^ d)
  have hupper := halfEven_le_succ (n * unitsInOne / 2 ^ d) (n * unitsInOne % 2 ^ d) (2 ^ d)
  have hfinite := (min_lt_iff.mp h).resolve_left (lt_irrefl _)
  rw [Nat.min_eq_right hfinite.le,
    units_mul_add (hd.imp_right (Nat.le_trans · hlower)) (Nat.le_trans hupper hk)]
  rcases Nat.le_total d 1074 with hle | hle
  · -- The dropped bits are places of the units in one, so they are all zero.
    have hdvd : 2 ^ d ∣ n * unitsInOne := by
      rw [unitsInOne_eq]
      exact Dvd.dvd.mul_left (pow_dvd_pow 2 hle) n
    rw [Nat.mod_eq_zero_of_dvd hdvd, halfEven_exact _ (Nat.two_pow_pos d), Nat.div_mul_cancel hdvd]
    exact Nat.dvd_mul_left _ _
  · rw [unitsInOne_eq]
    exact Dvd.dvd.mul_left (pow_dvd_pow 2 hle) _

end Magnitude

namespace Decimal

open Magnitude

/-- A decimal without places behind the point denotes a whole number. -/
theorem unitsInOne_dvd_magnitude {d : Decimal} (h : 0 ≤ d.exponent) (hm : d.magnitude < infinite) :
    unitsInOne ∣ units d.magnitude := by
  have hden : d.denominator = 1 := by
    rw [denominator_eq, Int.toNat_of_nonpos (Int.neg_nonpos_of_nonneg h), pow_zero]
  rw [magnitude_eq_nearest, hden] at hm ⊢
  exact unitsInOne_dvd_nearest hm

/-- The shortest decimal of a double that is no whole number has places behind the point. -/
theorem exponent_shortest_neg {m : Nat} (hm : m < infinite) (h : ¬ unitsInOne ∣ units m) :
    (shortest m).exponent < 0 := by
  have hread := magnitude_shortest_eq hm
  by_contra hneg
  have hdvd := unitsInOne_dvd_magnitude (not_lt.mp hneg) (hread.symm ▸ hm)
  rw [hread] at hdvd
  exact h hdvd

/-- The points of a grid next to a magnitude are reduced. -/
theorem exists_reduced_of_onGrid? {m : Nat} {e : Int} {d : Decimal} (h : onGrid? m e = some d) :
    ∃ d' : Decimal, d = d'.reduced := by
  have hmem := List.mem_of_find?_eq_some h
  rw [neighbours] at hmem
  split at hmem <;>
  · simp only [List.mem_cons, List.not_mem_nil, or_false] at hmem
    rcases hmem with rfl | rfl
    · exact ⟨_, rfl⟩
    · exact ⟨_, rfl⟩

theorem exists_reduced_of_search? {m : Nat} {d : Decimal} {count : Nat} {e : Int}
    (h : search? m count e = some d) : ∃ d' : Decimal, d = d'.reduced := by
  induction count generalizing e with
  | zero => cases h
  | succ count ih =>
    rcases Option.or_eq_some_iff.mp h with h | ⟨-, h⟩
    · exact exists_reduced_of_onGrid? h
    · exact ih h

/-- A shortest decimal does not end with a zero, unless it is zero. -/
theorem coefficient_shortest (m : Nat) :
    shortest m = ⟨0, 0⟩ ∨ (shortest m).coefficient % 10 ≠ 0 := by
  have hreduced : ∃ d : Decimal, shortest m = d.reduced := by
    rw [shortest]
    generalize hs : search? m _ _ = found
    cases found with
    | none => exact ⟨⟨units m * Nat.pow 5 1074, -1074⟩, by rw [Option.getD_none, expansion]⟩
    | some d => exact exists_reduced_of_search? hs
  obtain ⟨d, hd⟩ := hreduced
  rw [hd]
  exact d.coefficient_reduced

end Decimal

/-! ### Doubles -/

variable {v : Float}

/-- A finite double is a whole number exactly if its units make up ones. -/
theorem isIntegral_iff_dvd (h : v.isFinite) : isIntegral v = true ↔
    Magnitude.unitsInOne ∣ Magnitude.units (Magnitude.ofFloat v) := by
  rw [isIntegral, h, Bool.true_and, beq_iff_eq, Nat.dvd_iff_mod_eq_zero]

/-- The value of a whole number is its whole part with its sign. -/
theorem exactValue_of_isIntegral (h : v.isFinite) (hintegral : isIntegral v = true) :
    exactValue v = ((if isNegative v then -1 else 1) *
      (Magnitude.wholePart (Magnitude.ofFloat v) : ℤ) : ℤ) := by
  have hproduct := Nat.div_mul_cancel ((isIntegral_iff_dvd h).mp hintegral)
  have hvalue : Magnitude.value (Magnitude.ofFloat v) =
      (Magnitude.wholePart (Magnitude.ofFloat v) : ℤ) := by
    rw [Magnitude.value, div_eq_iff Magnitude.unitsInOne_cast_pos.ne', Magnitude.wholePart]
    exact_mod_cast hproduct.symm
  rw [exactValue_eq h, hvalue, Int.cast_mul]
  split <;> norm_num

/-- A finite double has no fractional part exactly if its value is a whole number. -/
theorem isIntegral_iff (h : v.isFinite) :
    isIntegral v = true ↔ ∃ n : ℤ, exactValue v = n := by
  constructor
  · exact fun hintegral ↦ ⟨_, exactValue_of_isIntegral h hintegral⟩
  · rintro ⟨n, hn⟩
    have hunits : Magnitude.value (Magnitude.ofFloat v) =
        ((if isNegative v then -n else n : ℤ) : ℚ) := by
      rw [exactValue_eq h] at hn
      split at hn
      · rw [if_pos ‹_›, Int.cast_neg, ← hn]
        ring
      · rw [if_neg ‹_›, ← hn, one_mul]
    rw [isIntegral_iff_dvd h, ← Int.natCast_dvd_natCast]
    refine ⟨if isNegative v then -n else n, ?_⟩
    rw [Magnitude.value, div_eq_iff Magnitude.unitsInOne_cast_pos.ne', mul_comm] at hunits
    exact_mod_cast hunits

end DeskCalculator
