import Mathlib
import Criteria.Proofs.Number.Division
import Criteria.Proofs.Value.Equality

/-!
# The line of numbers

An integer stands for itself. A double stands for the rational number, or the infinity, that its sign,
its significand and its shift give by the formula of the format. Numbers are compared as the points of
a line that they stand for, and nothing is rounded.

* `Number.point?`: the point that a number stands for, by those formulas;
* `Level.point`: the point of a place that numbers are compared by; places are ordered as their points
  (`Level.point_lt_iff`), and different places have different points (`Level.point_inj`);
* `Number.equal_iff_point?`, `Number.less_iff_point?`: equality and order of numbers are those of
  their points.
-/

namespace Criteria

/-- The line of rational numbers, with an end on either side. -/
abbrev Line := WithBot (WithTop ℚ)

/-- The point that a rational number is. -/
def Line.ofRational (q : ℚ) : Line := ((q : WithTop ℚ) : Line)

/-- The point that a double stands for: its significand times a power of two, with its sign. Not a
number stands for none. -/
def Double.point? : Double → Option Line
  | .nan => none
  | .infinity negative => some (if negative then ⊥ else ⊤)
  | .finite negative significand shift _ =>
    some (Line.ofRational ((if negative then -1 else 1) * significand * 2 ^ ((shift : ℤ) - 1074)))

/-- The point that a number stands for. -/
def Number.point? : Number → Option Line
  | .int n => some (Line.ofRational n)
  | .double x => x.point?

/-- The point of a place. -/
def Level.point : Level → Line
  | .bottom => ⊥
  | .at units => Line.ofRational (units / 2 ^ Double.unitBits)
  | .top => ⊤

namespace Line

variable {p q : ℚ}

theorem ofRational_lt_iff : ofRational p < ofRational q ↔ p < q := by
  rw [ofRational, ofRational, WithBot.coe_lt_coe, WithTop.coe_lt_coe]

theorem ofRational_inj : ofRational p = ofRational q ↔ p = q := by
  rw [ofRational, ofRational, WithBot.coe_inj, WithTop.coe_inj]

theorem ofRational_lt_top : ofRational q < ⊤ := WithBot.coe_lt_coe.2 (WithTop.coe_lt_top q)

theorem bot_lt_ofRational : ⊥ < ofRational q := WithBot.bot_lt_coe _

end Line

namespace Level

variable {x y : Level}

/-- Places are ordered as their points. -/
theorem point_lt_iff : x.point < y.point ↔ x.less y = true := by
  have hunit : (0 : ℚ) < 2 ^ Double.unitBits := by positivity
  rcases x with _ | m | _ <;> rcases y with _ | n | _
  case at.at =>
    rw [point, point, Line.ofRational_lt_iff, div_lt_div_iff_of_pos_right hunit, Int.cast_lt, less,
      decide_eq_true_iff]
  all_goals simp [point, less, Line.bot_lt_ofRational, Line.ofRational_lt_top]

/-- Different places have different points. -/
theorem point_inj : x.point = y.point ↔ x = y := by
  have hunit : (2 : ℚ) ^ Double.unitBits ≠ 0 := by positivity
  rcases x with _ | m | _ <;> rcases y with _ | n | _
  case at.at =>
    rw [point, point, Line.ofRational_inj, div_left_inj' hunit, Int.cast_inj, Level.at.injEq]
  all_goals simp [point, Line.bot_lt_ofRational.ne, Line.bot_lt_ofRational.ne',
    Line.ofRational_lt_top.ne, Line.ofRational_lt_top.ne']

end Level

namespace Number

variable {a b : Number} {u v : Line} {q : ℚ}

/-- The units of a finite double make the number that the formula of the format gives. -/
theorem signed_units_div {negative : Bool} {significand shift : Nat} :
    (Double.signed negative (significand * Nat.pow 2 shift) : ℚ) / 2 ^ Double.unitBits =
      (if negative then -1 else 1) * significand * 2 ^ ((shift : ℤ) - 1074) := by
  have hunit : (2 : ℚ) ^ ((shift : ℤ) - 1074) = 2 ^ shift / 2 ^ Double.unitBits := by
    have hbits : (1074 : ℤ) = (Double.unitBits : ℤ) := rfl
    rw [hbits, zpow_sub₀ two_ne_zero, zpow_natCast, zpow_natCast]
  have hsigned : (Double.signed negative (significand * Nat.pow 2 shift) : ℚ) =
      (if negative then -1 else 1) * significand * 2 ^ shift := by
    rw [Double.signed, Nat.pow_eq]
    cases negative <;> simp
  rw [hunit, hsigned, mul_div_assoc]

/-- The point that a number stands for is that of its place. -/
theorem point?_eq : a.point? = a.level?.map Level.point := by
  rcases a with n | x
  · rw [point?, level?, Option.map_some, Level.point, ← units_div_eq]
  · cases x with
    | nan => rfl
    | infinity negative => cases negative <;> rfl
    | finite negative significand shift canonical =>
      rw [point?, Double.point?, level?, Option.map_some, Level.point, signed_units_div]

/-- Every number but not a number stands for a point. -/
theorem exists_point?_iff : (∃ u, a.point? = some u) ↔ a.isNaN = false := by
  rcases a with n | x
  · exact iff_of_true ⟨_, rfl⟩ rfl
  · cases x <;> simp [point?, Double.point?, isNaN, Double.isNaN]

/-- Numbers are equal if they stand for one point. -/
theorem equal_iff_point? : a.equal b = true ↔ ∃ u, a.point? = some u ∧ b.point? = some u := by
  rw [equal_iff, point?_eq, point?_eq]
  constructor
  · rintro ⟨level, ha, hb⟩
    exact ⟨level.point, by rw [ha, Option.map_some], by rw [hb, Option.map_some]⟩
  · rintro ⟨u, ha, hb⟩
    obtain ⟨level, hlevel, rfl⟩ := Option.map_eq_some_iff.1 ha
    obtain ⟨other, hother, hpoint⟩ := Option.map_eq_some_iff.1 hb
    exact ⟨level, hlevel, by rw [hother, Level.point_inj.1 hpoint]⟩

/-- Numbers are ordered as the points that they stand for. -/
theorem less_iff_point? :
    a.less b = true ↔ ∃ u v, a.point? = some u ∧ b.point? = some v ∧ u < v := by
  rw [less, point?_eq, point?_eq]
  cases a.level? with
  | none => simp
  | some x =>
    cases b.level? with
    | none => simp
    | some y => simp [Level.point_lt_iff]

end Number

end Criteria
