import DeskCalculator.Decimal.Nearest

/-!
# The shortest decimal of a magnitude

Among the decimals that denote a given finite double, the shortest has the fewest digits, and of
those it is the nearest to the double. The multiples of a power of ten form a grid. The search goes
from a grid coarser than the double to finer ones and stops at the first grid that has a point
which reads back. Only the two neighbours of the double on each grid matter, since the decimals
that read back form an interval around it. On the grid of `10^-1074` the double itself is a point,
which ends the search.

## Main definitions

* `Decimal.neighbours`: the two points of a grid around a magnitude, the nearer one first.
* `Decimal.shortest`: the shortest decimal that reads back as a magnitude.
-/

namespace DeskCalculator.Decimal

/-- The multiples of `10 ^ e` next to a magnitude, below and above, the nearer one first. At equal
distance the upper one comes first. -/
def neighbours (m : Nat) (e : Int) : List Decimal :=
  let num := Magnitude.units m * Nat.pow 10 (-e).toNat
  let den := Magnitude.unitsInOne * Nat.pow 10 e.toNat
  let below := reduced ⟨num / den, e⟩
  let above := reduced ⟨num / den + 1, e⟩
  if 2 * (num % den) < den then [below, above] else [above, below]

/-- The point of the grid of `10 ^ e` that reads back as a magnitude, if there is one: the nearer
one if both neighbours do. -/
def onGrid? (m : Nat) (e : Int) : Option Decimal :=
  (neighbours m e).find? fun d => d.magnitude = m

/-- The exponent of a grid coarser than the magnitude: the number of digits of its whole part. -/
def coarsest (m : Nat) : Nat := (Nat.toDigits 10 (Magnitude.wholePart m)).length

/-- The magnitude itself as a decimal, since `2^-1074` is `5^1074` times `10^-1074`. -/
def expansion (m : Nat) : Decimal := reduced ⟨Magnitude.units m * Nat.pow 5 1074, -1074⟩

/-- The first grid point that reads back, trying `count` grids from the one of `10 ^ e` on, each ten
times finer than the one before. -/
def search? (m : Nat) : Nat → Int → Option Decimal
  | 0, _ => none
  | count + 1, e => (onGrid? m e).or (search? m count (e - 1))

/-- The decimal with the fewest digits that reads back as a finite magnitude, and the nearest to it
of those. -/
def shortest (m : Nat) : Decimal :=
  (search? m (coarsest m + 1075) (coarsest m)).getD (expansion m)

theorem magnitude_of_onGrid? {m : Nat} {e : Int} {d : Decimal} (h : onGrid? m e = some d) :
    d.magnitude = m := by
  simpa using List.find?_some h

theorem magnitude_of_search? {m : Nat} {d : Decimal} {count : Nat} {e : Int}
    (h : search? m count e = some d) : d.magnitude = m := by
  induction count generalizing e with
  | zero => simp [search?] at h
  | succ count ih =>
    rcases Option.or_eq_some_iff.1 h with h | h
    · exact magnitude_of_onGrid? h
    · exact ih h.2

/-- What the search finds reads back; where it finds nothing, the full expansion stands in. -/
theorem magnitude_shortest (m : Nat) :
    (shortest m).magnitude = m ∨ shortest m = expansion m := by
  rw [shortest]
  generalize hs : search? m _ _ = found
  cases found with
  | none => exact .inr Option.getD_none
  | some d => exact .inl (magnitude_of_search? hs)

end DeskCalculator.Decimal
