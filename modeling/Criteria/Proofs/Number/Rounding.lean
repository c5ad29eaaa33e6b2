import Mathlib
import Criteria.Number.Double

/-!
# Where rounding gives an infinity

A quotient is rounded to the nearest double, so it has a finite one as long as it is nearer to the
greatest double than to the power of two after it; halfway between them it is rounded away from the
greatest double, whose significand is odd.

* `limitUnits`: that point, in units; `2 ^ 1024 - 2 ^ 970` as a number;
* `le_roundHalfEven_iff`: which quotients are rounded to an even number or beyond it;
* `ofUnits_eq_infinity_iff`: the quotients that become infinite, from the three places the shift can
  be in.
-/

namespace Criteria.Double

variable {negative sign : Bool} {n num den significand shift magnitude : Nat} {units : Int}

/-- The number of units halfway between the greatest finite double and the power of two after it. -/
def limitUnits : Nat := (2 ^ 54 - 1) * 2 ^ 2044

/-! ### Signs and magnitudes -/

theorem natAbs_signed : (signed negative magnitude).natAbs = magnitude := by
  rw [signed]
  split_ifs <;> simp

theorem decide_signed_neg (hpos : 0 < magnitude) :
    decide (signed negative magnitude < 0) = negative := by
  cases negative <;> simp [signed, hpos]

theorem isFinite_iff {x : Double} : x.isFinite = true ↔ ∃ units, x.units? = some units := by
  cases x <;> simp [isFinite, units?]

/-! ### Rounding to a natural number -/

/-- The nearest number is the quotient cut off or the one after it: the latter beyond the half, and
at the half if the former is odd. -/
theorem roundHalfEven_eq :
    roundHalfEven num den =
      if 2 * (num % den) < den ∨ 2 * (num % den) = den ∧ num / den % 2 = 0 then num / den
      else num / den + 1 := by
  rw [roundHalfEven]
  split_ifs <;> omega

theorem div_le_roundHalfEven : num / den ≤ roundHalfEven num den := by
  rw [roundHalfEven_eq]
  split_ifs <;> omega

/-- A quotient is rounded to an even number or beyond it if it is not more than a half below. -/
theorem le_roundHalfEven_iff (hden : 0 < den) (heven : n % 2 = 0) :
    n ≤ roundHalfEven num den ↔ 2 * (n * den) ≤ 2 * num + den := by
  have hnum : den * (num / den) + num % den = num := Nat.div_add_mod num den
  have hrest : num % den < den := Nat.mod_lt num hden
  rw [roundHalfEven_eq]
  generalize num / den = quotient at *
  generalize num % den = rest at *
  rcases lt_trichotomy n (quotient + 1) with hlt | rfl | hgt
  · have hmul : n * den ≤ quotient * den := Nat.mul_le_mul_right den (Nat.le_of_lt_succ hlt)
    rw [mul_comm quotient] at hmul
    constructor
    · intro _
      omega
    · intro _
      split_ifs <;> omega
  · have hmul : (quotient + 1) * den = den * quotient + den := by ring
    rw [hmul]
    split_ifs <;> omega
  · have hmul : (quotient + 2) * den ≤ n * den := Nat.mul_le_mul_right den hgt
    have hsum : (quotient + 2) * den = den * quotient + 2 * den := by ring
    rw [hsum] at hmul
    constructor
    · intro h
      split_ifs at h <;> omega
    · intro _
      omega

/-! ### Rounding to a double -/

/-- A significand with all its bits is out of range for one bit more or a shift too large. -/
theorem not_isCanonical_iff (hbits : 2 ^ 52 ≤ significand) :
    ¬ IsCanonical significand shift ↔ 2 ^ 53 ≤ significand ∨ maxShift < shift := by
  simp only [IsCanonical, Nat.pow_eq]
  omega

theorem pack_eq_infinity_iff :
    pack negative significand shift = .infinity sign ↔
      negative = sign ∧ ¬ IsCanonical significand shift ∧ maxShift ≤ shift := by
  have hcarry : ¬ IsCanonical (Nat.pow 2 52) (shift + 1) ↔ maxShift ≤ shift := by
    rw [Nat.pow_eq, not_isCanonical_iff le_rfl]
    omega
  rw [pack]
  split_ifs with hcanonical hcarried
  · simp [hcanonical]
  · have hshift : ¬ maxShift ≤ shift := fun h => hcarry.2 h hcarried
    simp [hshift]
  · simp [hcanonical, hcarry.1 hcarried]

theorem pack_ne_nan : pack negative significand shift ≠ .nan := by
  rw [pack]
  split_ifs <;> simp

theorem ofUnits_ne_nan : ofUnits negative num den ≠ .nan := pack_ne_nan

/-- A quotient of fewer bits than the limit has is below it. -/
theorem lt_limitUnits_mul (hden : 0 < den) (hbits : num / den < 2 ^ (shift + 53))
    (hshift : shift < maxShift) : num < limitUnits * den := by
  have hpow : 2 ^ (shift + 53) ≤ 2 ^ 53 * 2 ^ 2044 := by
    rw [← pow_add]
    exact pow_le_pow_right₀ one_le_two (by rw [maxShift] at hshift; omega)
  have hlimit : 2 ^ 53 * 2 ^ 2044 ≤ limitUnits := Nat.mul_le_mul_right _ (by norm_num)
  exact (Nat.div_lt_iff_lt_mul hden).1 (hbits.trans_le (hpow.trans hlimit))

/-- A quotient of more bits than the limit has is not below it. -/
theorem limitUnits_mul_le (hden : 0 < den) (hbits : 2 ^ (shift + 52) ≤ num / den)
    (hshift : maxShift < shift) : limitUnits * den ≤ num := by
  have hpow : 2 ^ 54 * 2 ^ 2044 ≤ 2 ^ (shift + 52) := by
    rw [← pow_add]
    exact pow_le_pow_right₀ one_le_two (by rw [maxShift] at hshift; omega)
  have hlimit : limitUnits ≤ 2 ^ 54 * 2 ^ 2044 := Nat.mul_le_mul_right _ (by norm_num)
  exact (Nat.le_div_iff_mul_le hden).1 (hlimit.trans (hpow.trans hbits))

/-- With the greatest shift a significand is carried beyond the range from the limit on. -/
theorem not_isCanonical_maxShift_iff (hden : 0 < den) (hbits : 2 ^ (maxShift + 52) ≤ num / den) :
    ¬ IsCanonical (roundHalfEven num (den * Nat.pow 2 maxShift)) maxShift ↔
      limitUnits * den ≤ num := by
  have hpow : (2 : Nat) ^ maxShift = 2 * 2 ^ 2044 := by rw [maxShift, pow_succ']
  have hpos : 0 < den * 2 ^ maxShift := by positivity
  have hnormal : 2 ^ 52 ≤ roundHalfEven num (den * 2 ^ maxShift) := by
    refine le_trans ?_ div_le_roundHalfEven
    rw [Nat.le_div_iff_mul_le hden, pow_add] at hbits
    rw [Nat.le_div_iff_mul_le hpos]
    linarith
  rw [Nat.pow_eq, not_isCanonical_iff hnormal, or_iff_left (lt_irrefl maxShift),
    le_roundHalfEven_iff hpos (by norm_num), hpow, limitUnits]
  generalize (2 : Nat) ^ 2044 = power
  have hhalf : den * (2 * power) = 2 * (power * den) := by ring
  rw [hhalf, mul_assoc (2 ^ 54 - 1)]
  omega

/-- A quotient that is rounded becomes infinite from the limit on, with its own sign. -/
theorem ofUnits_eq_infinity_iff (hden : 0 < den) :
    ofUnits negative num den = .infinity sign ↔ negative = sign ∧ limitUnits * den ≤ num := by
  rw [ofUnits, pack_eq_infinity_iff, and_congr_right_iff]
  intro _
  have hupper : num / den < 2 ^ ((num / den).log2 - 52 + 53) :=
    Nat.lt_log2_self.trans_le (Nat.pow_le_pow_right Nat.two_pos (by omega))
  have hlower : (num / den).log2 - 52 ≠ 0 → 2 ^ ((num / den).log2 - 52 + 52) ≤ num / den := by
    intro hshift
    have hlog : (num / den).log2 - 52 + 52 = (num / den).log2 := by omega
    rw [hlog]
    exact Nat.log2_self_le (by rintro hzero; simp [hzero] at hshift)
  generalize (num / den).log2 - 52 = shift at *
  rcases lt_trichotomy shift maxShift with hlt | rfl | hgt
  · have hbelow := lt_limitUnits_mul hden hupper hlt
    omega
  · rw [not_isCanonical_maxShift_iff hden (hlower (by decide))]
    simp
  · have habove := limitUnits_mul_le hden (hlower (by omega)) hgt
    exact ⟨fun _ => habove, fun _ => ⟨fun hcanonical => hgt.not_ge hcanonical.2.1, hgt.le⟩⟩

/-! ### Finite results -/

/-- The double of a significand is infinite, or has the significand and the shift, or one carry more. -/
theorem units?_pack (h : (pack negative significand shift).units? = some units) :
    ∃ magnitude, units = signed negative magnitude ∧
      (magnitude = significand * 2 ^ shift ∨ magnitude = 2 ^ 52 * 2 ^ (shift + 1)) := by
  rw [pack] at h
  split_ifs at h
  · exact ⟨_, (Option.some.inj h).symm, .inl rfl⟩
  · exact ⟨_, (Option.some.inj h).symm, .inr rfl⟩
  · cases h

/-- A quotient of a unit or more is not rounded to zero, and keeps its sign. -/
theorem units?_ofUnits (hden : 0 < den) (hle : den ≤ num)
    (h : (ofUnits negative num den).units? = some units) :
    ∃ magnitude, 0 < magnitude ∧ units = signed negative magnitude := by
  obtain ⟨magnitude, rfl, hmagnitude⟩ := units?_pack h
  refine ⟨magnitude, ?_, rfl⟩
  have hquotient : num / den ≠ 0 := (Nat.div_pos hle hden).ne'
  have hshift : 2 ^ ((num / den).log2 - 52) ≤ num / den :=
    (pow_le_pow_right₀ one_le_two (Nat.sub_le _ _)).trans (Nat.log2_self_le hquotient)
  have hround : 0 < roundHalfEven num (den * 2 ^ ((num / den).log2 - 52)) := by
    refine lt_of_lt_of_le ?_ div_le_roundHalfEven
    rw [← Nat.div_div_eq_div_mul]
    exact Nat.div_pos hshift (by positivity)
  rcases hmagnitude with rfl | rfl
  · exact Nat.mul_pos hround (by positivity)
  · positivity

/-- The significand of a finite double is below the limit. -/
theorem natAbs_lt_limitUnits {x : Double} (h : x.units? = some units) :
    units.natAbs < limitUnits := by
  cases x with
  | finite negative significand shift canonical =>
    obtain rfl := Option.some.inj h
    obtain ⟨hbits, hshift, -⟩ := canonical
    have hpow : 2 ^ shift ≤ 2 * 2 ^ 2044 := by
      rw [← pow_succ']
      exact pow_le_pow_right₀ one_le_two hshift
    have hmul : significand * 2 ^ shift ≤ (2 ^ 53 - 1) * (2 * 2 ^ 2044) :=
      Nat.mul_le_mul (Nat.le_sub_one_of_lt hbits) hpow
    have hlimit : (2 ^ 53 - 1) * (2 * 2 ^ 2044) < limitUnits := by
      rw [limitUnits, ← mul_assoc]
      exact Nat.mul_lt_mul_of_pos_right (by norm_num) (by positivity)
    rw [natAbs_signed]
    exact hmul.trans_lt hlimit
  | _ => cases h

end Criteria.Double
