import Mathlib
import Criteria.Operator.Apply
import Criteria.Proofs.Number.Rounding

/-!
# When a quotient is infinite

Finite numbers are divided by a finite divisor other than zero. The quotient of two integers and the
quotient of two doubles is infinite exactly when the exact quotient is beyond the range of doubles.
An integer beside a double is converted first, and the quotient is that of the doubles: it can be
infinite though the exact one is small.

* `Number.rational?`: the exact value of a finite number, `Number.rounded?`: its value beside a double;
* `Double.ofQuotient_eq_infinity_iff`, `Double.div_eq_infinity_iff_ofQuotient`: the two divisions, of
  which the second comes down to the first;
* `Number.toDouble?_eq_none_iff`, `Number.exists_rational?_of_toDouble?`: the conversion;
* `applySymbol_divide`: the quotient of any two finite numbers, from those.
-/

namespace Criteria

namespace Double

variable {negative sign : Bool} {num den magnitude : Nat} {x y : Double} {u v : ℚ}

/-- The least magnitude that is beyond the range of doubles: halfway between the greatest double and
the power of two after it. -/
def limit : ℚ := 2 ^ 1024 - 2 ^ 970

theorem limit_mul : limit * 2 ^ unitBits = limitUnits := by
  have hpow : (2 : ℚ) ^ 1024 = 2 ^ 54 * 2 ^ 970 := by rw [← pow_add]
  have hunits : (2 : ℚ) ^ 2044 = 2 ^ 970 * 2 ^ unitBits := by rw [unitBits, ← pow_add]
  have hcast : ((2 ^ 54 - 1 : Nat) : ℚ) = 2 ^ 54 - 1 := by norm_num
  rw [limit, limitUnits, hpow, Nat.cast_mul, Nat.cast_pow, Nat.cast_ofNat, hunits, hcast]
  generalize (2 : ℚ) ^ 970 = power
  ring

theorem one_lt_limit : 1 < limit := by
  have hpow : (2 : ℚ) ^ 1024 = 2 ^ 54 * 2 ^ 970 := by rw [← pow_add]
  have hone : (1 : ℚ) ≤ 2 ^ 970 := one_le_pow₀ one_le_two
  rw [limit, hpow]
  generalize (2 : ℚ) ^ 970 = power at hone ⊢
  linarith only [hone]

theorem limit_pos : 0 < limit := zero_lt_one.trans one_lt_limit

/-- A quotient of natural numbers becomes infinite from the limit on. -/
theorem ofUnits_mul_eq_infinity_iff (hden : 0 < den) :
    ofUnits negative (num * Nat.pow 2 unitBits) den = .infinity sign ↔
      negative = sign ∧ limit ≤ num / den := by
  have hpos : (0 : ℚ) < den := by exact_mod_cast hden
  have hunit : (0 : ℚ) < 2 ^ unitBits := by positivity
  have hlimit : limit * den * 2 ^ unitBits = ((limitUnits * den : Nat) : ℚ) := by
    rw [Nat.cast_mul, ← limit_mul]
    ring
  have hnum : (num : ℚ) * 2 ^ unitBits = ((num * 2 ^ unitBits : Nat) : ℚ) := by
    rw [Nat.cast_mul, Nat.cast_pow, Nat.cast_ofNat]
  rw [ofUnits_eq_infinity_iff hden, le_div_iff₀ hpos, ← mul_le_mul_iff_left₀ hunit, hlimit, hnum,
    Nat.cast_le, Nat.pow_eq]

/-! ### The two divisions -/

/-- The quotient of integers is infinite exactly when the exact one is beyond the range. -/
theorem ofQuotient_eq_infinity_iff {m n : Int} (hn : n ≠ 0) :
    ofQuotient m n = .infinity sign ↔
      sign = (decide (m < 0) != decide (n < 0)) ∧ limit ≤ |(m : ℚ) / n| := by
  rw [ofQuotient, ofUnits_mul_eq_infinity_iff (Int.natAbs_pos.2 hn), abs_div, Nat.cast_natAbs,
    Nat.cast_natAbs, Int.cast_abs, Int.cast_abs, eq_comm]

/-- The quotient by a double other than zero is one that is rounded. -/
theorem div_eq_ofUnits {m n : Int} (hx : x.units? = some m) (hy : y.units? = some n) (hn : n ≠ 0) :
    ∃ s k t l, x.div y = ofUnits (s != t) (k * Nat.pow 2 unitBits) l ∧ m = signed s k ∧
      n = signed t l ∧ 0 < l := by
  cases x with
  | finite s k p hk =>
    cases y with
    | finite t l q hl =>
      obtain rfl := Option.some.inj hx
      obtain rfl := Option.some.inj hy
      have hpos : 0 < l * Nat.pow 2 q := by
        rw [Nat.pos_iff_ne_zero, ← @natAbs_signed t (l * Nat.pow 2 q)]
        exact Int.natAbs_ne_zero.2 hn
      have hl : l ≠ 0 := (Nat.pos_of_mul_pos_right hpos).ne'
      exact ⟨s, k * Nat.pow 2 p, t, l * Nat.pow 2 q, by rw [div, if_neg hl], rfl, rfl, hpos⟩
    | _ => cases hy
  | _ => cases hx

/-- The quotient of doubles is infinite when that of their numbers of units is. -/
theorem div_eq_infinity_iff_ofQuotient {m n : Int} (hx : x.units? = some m) (hy : y.units? = some n)
    (hn : n ≠ 0) : x.div y = .infinity sign ↔ ofQuotient m n = .infinity sign := by
  obtain ⟨s, k, t, l, hdiv, rfl, rfl, hpos⟩ := div_eq_ofUnits hx hy hn
  rw [hdiv, ofQuotient, natAbs_signed, natAbs_signed, ofUnits_mul_eq_infinity_iff hpos,
    ofUnits_mul_eq_infinity_iff hpos, and_congr_left_iff]
  intro hlimit
  -- The sign of a zero is not that of an integer, but the quotient is then zero.
  have hdividend : 0 < k := by
    rcases Nat.eq_zero_or_pos k with rfl | hk
    · rw [Nat.cast_zero, zero_div] at hlimit
      exact absurd hlimit limit_pos.not_ge
    · exact hk
  rw [decide_signed_neg hdividend, decide_signed_neg hpos]

/-- The quotient by a double other than zero is a number. -/
theorem div_ne_nan {m n : Int} (hx : x.units? = some m) (hy : y.units? = some n) (hn : n ≠ 0) :
    x.div y ≠ .nan := by
  obtain ⟨s, k, t, l, hdiv, -⟩ := div_eq_ofUnits hx hy hn
  rw [hdiv]
  exact ofUnits_ne_nan

end Double

namespace Number

open Double

variable {a b : Number} {x y : Double} {m n : Int} {u v : ℚ} {sign : Bool}

/-- The exact value of a finite number. -/
def rational? (a : Number) : Option ℚ :=
  match a.level? with
  | some (.at units) => some (units / 2 ^ unitBits)
  | _ => none

/-- The exact value that a number has beside a double: that of the double it is converted to. -/
def rounded? (a : Number) : Option ℚ := a.toDouble?.bind fun x => rational? (.double x)

theorem rational?_eq_some_iff :
    a.rational? = some u ↔ ∃ units : Int, a.level? = some (.at units) ∧ u = units / 2 ^ unitBits := by
  rw [rational?]
  split
  case h_1 units hlevel => simp [hlevel, eq_comm]
  case h_2 hother => simpa using fun units hlevel => (hother units hlevel).elim

theorem units_div_eq : (n : ℚ) = (n * Nat.pow 2 unitBits : Int) / 2 ^ unitBits := by
  have hunit : (2 : ℚ) ^ unitBits ≠ 0 := by positivity
  rw [Int.cast_mul, Nat.pow_eq, Int.cast_natCast, Nat.cast_pow, Nat.cast_ofNat,
    mul_div_cancel_right₀ _ hunit]

theorem rational?_int : rational? (.int n) = some (n : ℚ) :=
  rational?_eq_some_iff.2 ⟨_, rfl, units_div_eq⟩

theorem rational?_double_iff :
    rational? (.double x) = some u ↔ ∃ units, x.units? = some units ∧ u = units / 2 ^ unitBits := by
  rw [rational?_eq_some_iff]
  cases x with
  | infinity negative => cases negative <;> simp [level?, units?]
  | _ => simp [level?, units?]

theorem units_div_neg_iff {units : Int} : (units : ℚ) / 2 ^ unitBits < 0 ↔ units < 0 := by
  have hunit : (0 : ℚ) < 2 ^ unitBits := by positivity
  rw [div_lt_iff₀ hunit, zero_mul, Int.cast_lt_zero]

theorem units_ne_zero {units : Int} (h : (units : ℚ) / 2 ^ unitBits ≠ 0) : units ≠ 0 := by
  rintro rfl
  exact h (by rw [Int.cast_zero, zero_div])

theorem level?_zero : zero.level? = some (.at 0) := by rw [zero, level?, zero_mul]

/-- An integer that is a double has its value as a double. -/
theorem rational?_ofInt (h : (ofInt n).units? = some (n * Nat.pow 2 unitBits)) :
    rational? (.double (ofInt n)) = some (n : ℚ) :=
  rational?_double_iff.2 ⟨_, h, units_div_eq⟩

/-- Beside a double, a double has its own value. -/
theorem rounded?_double : rounded? (.double x) = rational? (.double x) := by
  rw [rounded?, toDouble?, Option.bind_some]

/-- Beside a double, an integer that is a double has its own value. -/
theorem rounded?_int (h : (ofInt n).units? = some (n * Nat.pow 2 unitBits)) :
    rounded? (.int n) = some (n : ℚ) := by
  rw [rounded?, toDouble?, ofInt?, if_pos (isFinite_iff.2 ⟨_, h⟩), Option.bind_some, rational?_ofInt h]

/-- A number is below zero if its exact value is. -/
theorem isNegative_eq (h : a.rational? = some u) : a.isNegative = decide (u < 0) := by
  obtain ⟨units, hlevel, rfl⟩ := rational?_eq_some_iff.1 h
  simp only [isNegative, less, hlevel, level?_zero, Level.less, units_div_neg_iff]

/-- A number is not zero if its exact value is not. -/
theorem isZero_eq_false (h : a.rational? = some u) (hu : u ≠ 0) : a.isZero = false := by
  obtain ⟨units, hlevel, rfl⟩ := rational?_eq_some_iff.1 h
  simpa only [isZero, equal, hlevel, level?_zero, beq_eq_false_iff_ne, ne_eq, Level.at.injEq]
    using units_ne_zero hu

/-- The quotient of finite doubles is infinite exactly when the exact one is beyond the range. -/
theorem double_div_eq_infinity_iff (hx : rational? (.double x) = some u)
    (hy : rational? (.double y) = some v) (hv : v ≠ 0) :
    x.div y = .infinity sign ↔ sign = (decide (u < 0) != decide (v < 0)) ∧ limit ≤ |u / v| := by
  have hunit : (2 : ℚ) ^ unitBits ≠ 0 := by positivity
  obtain ⟨m, hm, rfl⟩ := rational?_double_iff.1 hx
  obtain ⟨n, hn, rfl⟩ := rational?_double_iff.1 hy
  have hn0 : n ≠ 0 := units_ne_zero hv
  rw [div_eq_infinity_iff_ofQuotient hm hn hn0, ofQuotient_eq_infinity_iff hn0,
    div_div_div_cancel_right₀ hunit]
  simp only [units_div_neg_iff]

/-! ### The conversion of an integer -/

/-- A finite double is below the limit. -/
theorem abs_lt_limit (h : rational? (.double x) = some u) : |u| < limit := by
  have hunit : (0 : ℚ) < 2 ^ unitBits := by positivity
  obtain ⟨m, hm, rfl⟩ := rational?_double_iff.1 h
  rw [abs_div, abs_of_pos hunit, div_lt_iff₀ hunit, limit_mul, ← Int.cast_abs, Int.abs_eq_natAbs,
    Int.cast_natCast, Nat.cast_lt]
  exact natAbs_lt_limitUnits hm

/-- An integer is converted to an infinity exactly when it is beyond the range. -/
theorem ofInt_eq_infinity_iff :
    ofInt n = .infinity sign ↔ decide (n < 0) = sign ∧ limit ≤ |(n : ℚ)| := by
  rw [ofInt, ofUnits_mul_eq_infinity_iff Nat.one_pos, Nat.cast_one, div_one, Nat.cast_natAbs,
    Int.cast_abs]

/-- A finite number has no double exactly when it is beyond the range. -/
theorem toDouble?_eq_none_iff (h : a.rational? = some u) : a.toDouble? = none ↔ limit ≤ |u| := by
  cases a with
  | double x => simpa [toDouble?] using abs_lt_limit h
  | int n =>
    obtain rfl := Option.some.inj (rational?_int.symm.trans h)
    rw [toDouble?, ofInt?]
    cases hofInt : ofInt n with
    | nan => exact absurd hofInt ofUnits_ne_nan
    | infinity sign => simp [isFinite, (ofInt_eq_infinity_iff.1 hofInt).2]
    | finite negative significand shift canonical =>
      have hlimit : ¬ limit ≤ |(n : ℚ)| := fun hlimit => by
        have hinfinite := ofInt_eq_infinity_iff.2 ⟨rfl, hlimit⟩
        simp [hofInt] at hinfinite
      simp [isFinite, hlimit]

/-- The double of an integer is on the same side of zero. -/
theorem units?_ofInt {units : Int} (h : (ofInt n).units? = some units) :
    (units < 0 ↔ n < 0) ∧ (units = 0 ↔ n = 0) := by
  by_cases hn : n = 0
  · subst hn
    have hzero : (ofInt 0).units? = some 0 := by decide +kernel
    obtain rfl := Option.some.inj (hzero.symm.trans h)
    exact ⟨Iff.rfl, Iff.rfl⟩
  · have hle : 1 ≤ n.natAbs * Nat.pow 2 unitBits := by
      rw [Nat.pow_eq, Nat.one_le_iff_ne_zero]
      positivity
    rw [ofInt] at h
    obtain ⟨magnitude, hpos, rfl⟩ := units?_ofUnits Nat.one_pos hle h
    have hne : signed (decide (n < 0)) magnitude ≠ 0 := by
      rw [← Int.natAbs_ne_zero, natAbs_signed]
      exact hpos.ne'
    exact ⟨decide_eq_decide.1 (decide_signed_neg hpos), iff_of_false hne hn⟩

/-- The double that a finite number has is on the same side of zero. -/
theorem exists_rational?_of_toDouble? (h : a.rational? = some u) (hx : a.toDouble? = some x) :
    ∃ w, rational? (.double x) = some w ∧ (w < 0 ↔ u < 0) ∧ (w = 0 ↔ u = 0) := by
  have hunit : (2 : ℚ) ^ unitBits ≠ 0 := by positivity
  cases a with
  | double y =>
    obtain rfl := Option.some.inj hx
    exact ⟨u, h, Iff.rfl, Iff.rfl⟩
  | int n =>
    obtain rfl := Option.some.inj (rational?_int.symm.trans h)
    obtain ⟨hfinite, hofInt⟩ := Option.ite_none_right_eq_some.1 hx
    obtain rfl := Option.some.inj hofInt
    obtain ⟨units, hunits⟩ := isFinite_iff.1 hfinite
    refine ⟨_, rational?_double_iff.2 ⟨units, hunits, rfl⟩, ?_⟩
    obtain ⟨hneg, hzero⟩ := units?_ofInt hunits
    rw [units_div_neg_iff, hneg, Int.cast_lt_zero, div_eq_zero_iff, or_iff_left hunit,
      Int.cast_eq_zero, hzero, Int.cast_eq_zero]
    exact ⟨Iff.rfl, Iff.rfl⟩

/-! ### The quotient of two numbers -/

/-- Two integers are divided as they are. -/
theorem div_int_eq_infinity_iff (hn : n ≠ 0) :
    (int m).div (int n) = .infinity sign ↔
      sign = (decide (m < 0) != decide (n < 0)) ∧ limit ≤ |(m : ℚ) / n| := by
  have hzero : (int n).isZero = false := isZero_eq_false rational?_int (Int.cast_ne_zero.2 hn)
  rw [div, hzero, if_neg Bool.false_ne_true, ofQuotient_eq_infinity_iff hn]

/-- Unless both are integers, numbers are divided as the doubles that they have. -/
theorem div_of_not_ints (hzero : b.isZero = false) (h : ¬ ∃ m n, a = .int m ∧ b = .int n) :
    a.div b =
      match a.toDouble?, b.toDouble? with
      | some x, some y => x.div y
      | _, _ => .infinity (a.isNegative != b.isNegative) := by
  rw [div.eq_def, hzero, if_neg Bool.false_ne_true]
  split
  case h_1 m n => exact absurd ⟨m, n, rfl, rfl⟩ h
  case h_2 => rfl

/-- Beside a double the quotient is infinite if one of the numbers is beyond the range, or the
quotient of what they are converted to. -/
theorem div_eq_infinity_iff_of_not_ints (ha : a.rational? = some u) (hb : b.rational? = some v)
    (hv : v ≠ 0) (h : ¬ ∃ m n, a = .int m ∧ b = .int n) :
    a.div b = .infinity sign ↔ sign = (decide (u < 0) != decide (v < 0)) ∧
      (limit ≤ |u| ∨ limit ≤ |v| ∨
        ∃ s t, a.rounded? = some s ∧ b.rounded? = some t ∧ limit ≤ |s / t|) := by
  rw [div_of_not_ints (isZero_eq_false hb hv) h, ← toDouble?_eq_none_iff ha,
    ← toDouble?_eq_none_iff hb, ← isNegative_eq ha, ← isNegative_eq hb, rounded?, rounded?]
  cases hx : a.toDouble? with
  | none => simp [eq_comm]
  | some x =>
    cases hy : b.toDouble? with
    | none => simp [eq_comm]
    | some y =>
      obtain ⟨s, hs, hsneg, -⟩ := exists_rational?_of_toDouble? ha hx
      obtain ⟨t, ht, htneg, htzero⟩ := exists_rational?_of_toDouble? hb hy
      have hquotient := @double_div_eq_infinity_iff x y s t sign hs ht (htzero.not.2 hv)
      simp [hquotient, hsneg, htneg, isNegative_eq ha, isNegative_eq hb, hs, ht]

/-- The quotient of finite numbers is a number. -/
theorem div_ne_nan (ha : a.rational? = some u) (hb : b.rational? = some v) (hv : v ≠ 0) :
    a.div b ≠ .nan := by
  by_cases h : ∃ m n, a = .int m ∧ b = .int n
  · obtain ⟨m, n, rfl, rfl⟩ := h
    rw [div, isZero_eq_false hb hv, if_neg Bool.false_ne_true]
    exact ofUnits_ne_nan
  · rw [div_of_not_ints (isZero_eq_false hb hv) h]
    split
    case h_1 x y hx hy =>
      obtain ⟨_, hs, -⟩ := exists_rational?_of_toDouble? ha hx
      obtain ⟨_, ht, -, htzero⟩ := exists_rational?_of_toDouble? hb hy
      obtain ⟨m, hm, -⟩ := rational?_double_iff.1 hs
      obtain ⟨n, hn, rfl⟩ := rational?_double_iff.1 ht
      exact Double.div_ne_nan hm hn (units_ne_zero (htzero.not.2 hv))
    case h_2 => exact Double.noConfusion

/-- An infinite quotient has the sign of the exact one. -/
theorem sign_of_div_eq_infinity (ha : a.rational? = some u) (hb : b.rational? = some v) (hv : v ≠ 0)
    (h : a.div b = .infinity sign) : sign = (decide (u < 0) != decide (v < 0)) := by
  by_cases hints : ∃ m n, a = .int m ∧ b = .int n
  · obtain ⟨m, n, rfl, rfl⟩ := hints
    obtain rfl := Option.some.inj (rational?_int.symm.trans ha)
    obtain rfl := Option.some.inj (rational?_int.symm.trans hb)
    simpa using ((div_int_eq_infinity_iff (Int.cast_ne_zero.1 hv)).1 h).1
  · exact ((div_eq_infinity_iff_of_not_ints ha hb hv hints).1 h).1

/-- Of two integers, and of numbers that have their exact value beside a double, the quotient is
infinite exactly when the exact one is beyond the range. -/
theorem exists_div_eq_infinity_iff (ha : a.rational? = some u) (hb : b.rational? = some v)
    (hv : v ≠ 0)
    (h : (∃ m n, a = .int m ∧ b = .int n) ∨ a.rounded? = some u ∧ b.rounded? = some v) :
    (∃ sign, a.div b = .infinity sign) ↔ limit ≤ |u / v| := by
  by_cases hints : ∃ m n, a = .int m ∧ b = .int n
  · obtain ⟨m, n, rfl, rfl⟩ := hints
    obtain rfl := Option.some.inj (rational?_int.symm.trans ha)
    obtain rfl := Option.some.inj (rational?_int.symm.trans hb)
    simp [div_int_eq_infinity_iff (Int.cast_ne_zero.1 hv)]
  · obtain ⟨hra, hrb⟩ := h.resolve_left hints
    have hu : ¬ limit ≤ |u| := fun hlimit => by
      simp [rounded?, (toDouble?_eq_none_iff ha).2 hlimit] at hra
    have hv' : ¬ limit ≤ |v| := fun hlimit => by
      simp [rounded?, (toDouble?_eq_none_iff hb).2 hlimit] at hrb
    simp [div_eq_infinity_iff_of_not_ints ha hb hv hints, hu, hv', hra, hrb]

end Number

open Double in
/-- Finite numbers have a double as their quotient, never not a number, and an infinite one has the
sign of the exact quotient. It is infinite exactly when the exact quotient is beyond the range, if
both numbers are integers or both have their exact value beside a double. In general, beside a double
it is also infinite if one of the numbers alone is beyond the range. -/
theorem applySymbol_divide (nesting : Nat) {a b : Number} {u v : ℚ} (ha : a.rational? = some u)
    (hb : b.rational? = some v) (hv : v ≠ 0) :
    ∃ quotient : Double,
      applySymbol nesting "/" [.number a, .number b] = .ok (.number (.double quotient)) ∧
      quotient ≠ .nan ∧
      (∀ sign, quotient = .infinity sign → sign = (decide (u < 0) != decide (v < 0))) ∧
      ((∃ m n, a = .int m ∧ b = .int n) ∨ a.rounded? = some u ∧ b.rounded? = some v →
        ((∃ sign, quotient = .infinity sign) ↔ limit ≤ |u / v|) ∧
        (|u| ≤ |v| → ∀ sign, quotient ≠ .infinity sign)) ∧
      (¬ (∃ m n, a = .int m ∧ b = .int n) →
        ((∃ sign, quotient = .infinity sign) ↔ limit ≤ |u| ∨ limit ≤ |v| ∨
          ∃ s t, a.rounded? = some s ∧ b.rounded? = some t ∧ limit ≤ |s / t|)) := by
  refine ⟨a.div b, rfl, Number.div_ne_nan ha hb hv,
    fun sign => Number.sign_of_div_eq_infinity ha hb hv, fun h => ?_, fun h => ?_⟩
  · have hiff := Number.exists_div_eq_infinity_iff ha hb hv h
    refine ⟨hiff, fun hle sign hinfinite => ?_⟩
    have hlimit : limit ≤ |u / v| := hiff.1 ⟨sign, hinfinite⟩
    have hone : |u / v| ≤ 1 := by
      rw [abs_div]
      exact div_le_one_of_le₀ hle (abs_nonneg v)
    exact absurd (hlimit.trans hone) one_lt_limit.not_ge
  · simp [Number.div_eq_infinity_iff_of_not_ints ha hb hv h]

/-- A double and an integer that is no smaller have a finite quotient, as the integer is a double. -/
theorem applySymbol_divide_mixed :
    ∃ quotient : Double,
      applySymbol 1000 "/" [.number (.double (.ofInt (-2))), .number (.int 3)] =
        .ok (.number (.double quotient)) ∧
      quotient ≠ .nan ∧ ∀ sign, quotient ≠ .infinity sign := by
  have htwo : Number.rational? (.double (.ofInt (-2))) = some ((-2 : Int) : ℚ) :=
    Number.rational?_ofInt (by decide +kernel)
  have hthree : (Number.int 3).rounded? = some ((3 : Int) : ℚ) :=
    Number.rounded?_int (by decide +kernel)
  obtain ⟨quotient, hok, hnan, -, hexact, -⟩ :=
    applySymbol_divide 1000 htwo (@Number.rational?_int 3) (by norm_num)
  obtain ⟨-, hfinite⟩ := hexact (.inr ⟨Number.rounded?_double.trans htwo, hthree⟩)
  exact ⟨quotient, hok, hnan, hfinite (by norm_num)⟩

/-- One as a double, divided by an integer beyond the range, is infinite, though the exact quotient is
within the range: it is less than one. -/
theorem applySymbol_divide_ne_exact :
    let one : Number := .double (.ofInt 1)
    let large : Number := .int (2 ^ 1024)
    applySymbol 1000 "/" [.number one, .number large] = .ok (.number (.double (.infinity false))) ∧
      one.rational? = some 1 ∧ large.rational? = some (2 ^ 1024) ∧
      |(1 : ℚ)| ≤ |2 ^ 1024| ∧ |(1 : ℚ) / 2 ^ 1024| < Double.limit := by
  intro one large
  have hone : one.rational? = some 1 := by
    rw [← Int.cast_one]
    exact Number.rational?_ofInt (by decide +kernel)
  have hlarge : large.rational? = some (2 ^ 1024) := by
    rw [Number.rational?_int, Int.cast_pow, Int.cast_ofNat]
  have hdiv : one.div large = .infinity false := by decide +kernel
  have hle : |(1 : ℚ)| ≤ |2 ^ 1024| := by
    rw [abs_one, abs_of_pos (by positivity)]
    exact one_le_pow₀ one_le_two
  have hquotient : |(1 : ℚ) / 2 ^ 1024| ≤ 1 := by
    rw [abs_div]
    exact div_le_one_of_le₀ hle (abs_nonneg _)
  refine ⟨?_, hone, hlarge, hle, hquotient.trans_lt Double.one_lt_limit⟩
  rw [← hdiv]
  rfl

end Criteria
