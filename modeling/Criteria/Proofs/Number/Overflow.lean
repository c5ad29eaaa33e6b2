import Mathlib
import Criteria.Proofs.Number.Division

/-!
# Sums, differences and products beyond the range

Two integers are added, subtracted and multiplied exactly. As soon as one side is a double, a number
that is beyond the range of doubles is refused. But where both sides have doubles the result is
rounded, and if it is beyond the range itself it is infinite and not refused.

* `Double.HasRangeOf`: a double that is infinite exactly if a number is beyond the range. A quotient
  of units that is rounded is such a double (`hasRangeOf_ofUnits`), and so are the sum, the
  difference and the product of finite doubles;
* `BinaryOperator.exact?`: what the three operators are on exact numbers;
* `arithmetic_cases`: what they give for finite numbers, by one argument for all three;
* `applySymbol_arithmetic`: when the result is exact, refused, infinite or finite.
-/

namespace Criteria

namespace Double

variable {negative : Bool} {num den : Nat} {q : ℚ}

/-- A double that is infinite exactly if a number is beyond the range, with the sign of the number,
and that is finite otherwise. -/
structure HasRangeOf (x : Double) (q : ℚ) : Prop where
  ne_nan : x ≠ .nan
  eq_infinity_iff : ∀ sign, x = .infinity sign ↔ limit ≤ |q| ∧ sign = decide (q < 0)

/-- A quotient of units that is rounded has the range of the exact one. -/
theorem hasRangeOf_ofUnits (hden : 0 < den)
    (hq : q * 2 ^ unitBits * den = (signed negative num : ℚ)) :
    (ofUnits negative num den).HasRangeOf q where
  ne_nan := ofUnits_ne_nan
  eq_infinity_iff sign := by
    have hscale : (0 : ℚ) < 2 ^ unitBits * den := by positivity
    have hmagnitude : |q| * (2 ^ unitBits * den) = num := by
      rw [← abs_of_pos hscale, ← abs_mul, ← mul_assoc, hq, ← Int.cast_abs, Int.abs_eq_natAbs,
        natAbs_signed, Int.cast_natCast]
    have hlimit : limit * (2 ^ unitBits * den) = ((limitUnits * den : Nat) : ℚ) := by
      rw [← mul_assoc, limit_mul, Nat.cast_mul]
    have hiff : limit ≤ |q| ↔ limitUnits * den ≤ num := by
      rw [← mul_le_mul_iff_left₀ hscale, hmagnitude, hlimit, Nat.cast_le]
    rw [ofUnits_eq_infinity_iff hden, hiff, and_comm, and_congr_right_iff]
    intro hle
    -- from the limit on a number is not zero, so its sign is that of the units
    have hpos : 0 < num := by
      have hlimitUnits : 0 < limitUnits := Nat.mul_pos (by norm_num) (by positivity)
      exact (Nat.mul_pos hlimitUnits hden).trans_le hle
    have hneg : q < 0 ↔ signed negative num < 0 := by
      rw [← Int.cast_lt_zero (R := ℚ), ← hq, mul_assoc, mul_neg_iff]
      simp [hscale, hscale.not_gt]
    have hsign : decide (q < 0) = negative := by
      rw [decide_eq_decide.2 hneg, decide_signed_neg hpos]
    rw [hsign, eq_comm]

theorem signed_natAbs (n : Int) (sign : Bool) :
    signed (decide (n < 0) || (decide (n = 0) && sign)) n.natAbs = n := by
  unfold signed
  split_ifs with h <;> simp at h <;> omega

theorem signed_mul (s t : Bool) (k l : Nat) :
    signed (s != t) (k * l) = signed s k * signed t l := by
  cases s <;> cases t <;> simp [signed]

end Double

open Double

variable {operator : BinaryOperator} {exact : ℚ → ℚ → ℚ} {a b : Number} {u v : ℚ} {x y : Double}
  {verb : String} {onInts : Int → Int → Int} {onDoubles : Double → Double → Double}

namespace Number

/-! ### The three operations on doubles -/

/-- A double with an exact value is finite, and its units make up the value. -/
theorem exists_finite_of_rational? (h : rational? (.double x) = some u) :
    ∃ negative significand shift canonical, x = .finite negative significand shift canonical ∧
      u * 2 ^ unitBits = (signed negative (significand * Nat.pow 2 shift) : ℚ) := by
  have hunit : (2 : ℚ) ^ unitBits ≠ 0 := by positivity
  obtain ⟨units, hunits, rfl⟩ := rational?_double_iff.1 h
  cases x with
  | finite negative significand shift canonical =>
    obtain rfl := Option.some.inj hunits
    exact ⟨negative, significand, shift, canonical, rfl, div_mul_cancel₀ _ hunit⟩
  | _ => cases hunits

/-- A double other than not a number is finite or an infinity. -/
theorem finite_or_infinity (h : x ≠ .nan) :
    (∃ w, rational? (.double x) = some w) ∨ ∃ sign, x = .infinity sign := by
  cases x with
  | nan => exact absurd rfl h
  | infinity sign => exact .inr ⟨sign, rfl⟩
  | finite => exact .inl ⟨_, rational?_double_iff.2 ⟨_, rfl, rfl⟩⟩

theorem rational?_neg (h : rational? (.double x) = some u) :
    rational? (.double x.neg) = some (-u) := by
  obtain ⟨units, hunits, rfl⟩ := rational?_double_iff.1 h
  refine rational?_double_iff.2 ⟨-units, ?_, by rw [Int.cast_neg, neg_div]⟩
  cases x with
  | finite negative significand shift canonical =>
    obtain rfl := Option.some.inj hunits
    cases negative <;> simp [neg, units?, signed]
  | _ => cases hunits

theorem hasRangeOf_add (hx : rational? (.double x) = some u) (hy : rational? (.double y) = some v) :
    (x.add y).HasRangeOf (u + v) := by
  obtain ⟨s, k, p, hk, rfl, hu⟩ := exists_finite_of_rational? hx
  obtain ⟨t, l, q, hl, rfl, hv⟩ := exists_finite_of_rational? hy
  refine hasRangeOf_ofUnits Nat.one_pos ?_
  rw [Bool.and_assoc, signed_natAbs, Int.cast_add, ← hu, ← hv]
  ring

theorem hasRangeOf_sub (hx : rational? (.double x) = some u) (hy : rational? (.double y) = some v) :
    (x.sub y).HasRangeOf (u - v) := by
  rw [sub_eq_add_neg]
  exact hasRangeOf_add hx (rational?_neg hy)

theorem hasRangeOf_mul (hx : rational? (.double x) = some u) (hy : rational? (.double y) = some v) :
    (x.mul y).HasRangeOf (u * v) := by
  obtain ⟨s, k, p, hk, rfl, hu⟩ := exists_finite_of_rational? hx
  obtain ⟨t, l, q, hl, rfl, hv⟩ := exists_finite_of_rational? hy
  have hpos : 0 < Nat.pow 2 unitBits := by
    rw [Nat.pow_eq]
    positivity
  refine hasRangeOf_ofUnits hpos ?_
  have hunit : ((Nat.pow 2 unitBits : Nat) : ℚ) = 2 ^ unitBits := by
    rw [Nat.pow_eq, Nat.cast_pow, Nat.cast_ofNat]
  rw [signed_mul, Int.cast_mul, ← hu, ← hv, hunit]
  ring

/-! ### Numbers of either kind -/

/-- Unless both are integers, numbers are combined as the doubles that they have. -/
theorem combine?_of_not_ints (h : ¬∃ m n, a = .int m ∧ b = .int n) :
    combine? onInts onDoubles a b =
      a.toDouble?.bind fun x => b.toDouble?.bind fun y => some (.double (onDoubles x y)) := by
  unfold combine?
  split
  case h_1 m n => exact absurd ⟨m, n, rfl, rfl⟩ h
  case h_2 => rfl

theorem rounded?_eq_none_iff (h : a.rational? = some u) : a.rounded? = none ↔ limit ≤ |u| := by
  rw [← toDouble?_eq_none_iff h, rounded?]
  cases hx : a.toDouble? with
  | none => simp
  | some x =>
    obtain ⟨w, hw, -⟩ := exists_rational?_of_toDouble? h hx
    simp [hw]

theorem not_limit_le_of_rounded? (h : a.rational? = some u) (hu : a.rounded? = some v) :
    ¬limit ≤ |u| := by
  rw [← rounded?_eq_none_iff h, hu]
  exact Option.some_ne_none v

section Arithmetic

/-! An operation on numbers that is exact on integers, and has the range of the exact result on
doubles. -/

variable (honInts : ∀ m n : Int, (onInts m n : ℚ) = exact m n)
  (honDoubles : ∀ x y s t, rational? (.double x) = some s → rational? (.double y) = some t →
    (onDoubles x y).HasRangeOf (exact s t))
  (ha : a.rational? = some u) (hb : b.rational? = some v)

include honInts honDoubles ha hb

/-- For finite numbers it gives the exact integer, or it refuses a number that is beyond the range,
or else it gives a double, made of what the numbers are beside a double. -/
theorem arithmetic_cases {outcome : Except Cause Value} (houtcome : outcome =
      Value.arithmetic verb (combine? onInts onDoubles) (.number a) (.number b)) :
    ((∃ m n, a = .int m ∧ b = .int n) ∧ ∃ k : Int, outcome = .ok (.int k) ∧ k = exact u v) ∨
    (¬∃ m n, a = .int m ∧ b = .int n) ∧
      ((limit ≤ |u| ∨ limit ≤ |v|) ∧ outcome = .error (.outOfRange verb) ∨
        ∃ s t x, a.rounded? = some s ∧ b.rounded? = some t ∧
          outcome = .ok (.number (.double x)) ∧ x.HasRangeOf (exact s t)) := by
  by_cases h : ∃ m n, a = .int m ∧ b = .int n
  · obtain ⟨m, n, rfl, rfl⟩ := h
    obtain rfl := Option.some.inj (rational?_int.symm.trans ha)
    obtain rfl := Option.some.inj (rational?_int.symm.trans hb)
    exact .inl ⟨⟨m, n, rfl, rfl⟩, onInts m n, houtcome, honInts m n⟩
  · refine .inr ⟨h, ?_⟩
    simp only [Value.arithmetic, combine?_of_not_ints h] at houtcome
    cases hx : a.toDouble? with
    | none =>
      rw [hx] at houtcome
      exact .inl ⟨.inl ((toDouble?_eq_none_iff ha).1 hx), houtcome⟩
    | some x =>
      cases hy : b.toDouble? with
      | none =>
        rw [hx, hy] at houtcome
        exact .inl ⟨.inr ((toDouble?_eq_none_iff hb).1 hy), houtcome⟩
      | some y =>
        rw [hx, hy] at houtcome
        obtain ⟨s, hs, -⟩ := exists_rational?_of_toDouble? ha hx
        obtain ⟨t, ht, -⟩ := exists_rational?_of_toDouble? hb hy
        exact .inr ⟨s, t, onDoubles x y, by simp [rounded?, hx, hs], by simp [rounded?, hy, ht],
          houtcome, honDoubles x y s t hs ht⟩

/-- Only a number that is beyond the range is refused, and only beside a double. -/
theorem arithmetic_eq_error_iff :
    (∃ cause, Value.arithmetic verb (combine? onInts onDoubles) (.number a) (.number b) =
        .error cause) ↔
      (¬∃ m n, a = .int m ∧ b = .int n) ∧ (limit ≤ |u| ∨ limit ≤ |v|) := by
  rcases arithmetic_cases honInts honDoubles ha hb rfl with
    ⟨hints, k, hk, -⟩ | ⟨hmixed, ⟨hbeyond, hrefused⟩ | ⟨s, t, x, hs, ht, hx, -⟩⟩
  · refine iff_of_false ?_ fun h => h.1 hints
    rw [hk]
    rintro ⟨cause, ⟨⟩⟩
  · exact iff_of_true ⟨_, hrefused⟩ ⟨hmixed, hbeyond⟩
  · refine iff_of_false ?_ fun h =>
      h.2.elim (not_limit_le_of_rounded? ha hs) (not_limit_le_of_rounded? hb ht)
    rw [hx]
    rintro ⟨cause, ⟨⟩⟩

/-- Where both numbers have doubles, the result is infinite exactly if the exact result of these
doubles is beyond the range. -/
theorem arithmetic_eq_infinity_iff (sign : Bool) :
    Value.arithmetic verb (combine? onInts onDoubles) (.number a) (.number b) =
        .ok (.number (.double (.infinity sign))) ↔
      (¬∃ m n, a = .int m ∧ b = .int n) ∧ ∃ s t, a.rounded? = some s ∧ b.rounded? = some t ∧
        limit ≤ |exact s t| ∧ sign = decide (exact s t < 0) := by
  rcases arithmetic_cases honInts honDoubles ha hb rfl with
    ⟨hints, k, hk, -⟩ | ⟨hmixed, ⟨hbeyond, hrefused⟩ | ⟨s, t, x, hs, ht, hx, hrange⟩⟩
  · refine iff_of_false ?_ fun h => h.1 hints
    rw [hk]
    rintro ⟨⟩
  · constructor
    · rw [hrefused]
      rintro ⟨⟩
    · rintro ⟨-, s, t, hs, ht, -⟩
      rcases hbeyond with hu | hv
      · exact absurd hu (not_limit_le_of_rounded? ha hs)
      · exact absurd hv (not_limit_le_of_rounded? hb ht)
  · rw [hx, Except.ok.injEq, Value.number.injEq, Number.double.injEq, hrange.eq_infinity_iff]
    constructor
    · exact fun h => ⟨hmixed, s, t, hs, ht, h⟩
    · rintro ⟨-, s', t', hs', ht', h⟩
      obtain rfl := Option.some.inj (hs.symm.trans hs')
      obtain rfl := Option.some.inj (ht.symm.trans ht')
      exact h

/-- What is not refused is a finite number or an infinity. -/
theorem finite_or_infinity_of_arithmetic {value : Value} (h :
      Value.arithmetic verb (combine? onInts onDoubles) (.number a) (.number b) = .ok value) :
    (∃ result w, value = .number result ∧ result.rational? = some w) ∨
      ∃ sign, value = .number (.double (.infinity sign)) := by
  rcases arithmetic_cases honInts honDoubles ha hb rfl with
    ⟨-, k, hk, -⟩ | ⟨-, ⟨-, hrefused⟩ | ⟨s, t, x, -, -, hx, hrange⟩⟩
  · rw [hk] at h
    cases h
    exact .inl ⟨.int k, k, rfl, rational?_int⟩
  · rw [hrefused] at h
    cases h
  · rw [hx] at h
    cases h
    rcases finite_or_infinity hrange.ne_nan with ⟨w, hw⟩ | ⟨sign, rfl⟩
    · exact .inl ⟨_, w, rfl, hw⟩
    · exact .inr ⟨sign, rfl⟩

/-- Two integers give the exact one. -/
theorem exists_int_of_arithmetic (hints : ∃ m n, a = .int m ∧ b = .int n) :
    ∃ k : Int, Value.arithmetic verb (combine? onInts onDoubles) (.number a) (.number b) =
      .ok (.int k) ∧ k = exact u v := by
  rcases arithmetic_cases honInts honDoubles ha hb rfl with ⟨-, hexact⟩ | ⟨hmixed, -⟩
  · exact hexact
  · exact absurd hints hmixed

end Arithmetic

end Number

/-! ### The three operators -/

/-- What an operator is on exact numbers, if it is `+`, `-` or `*`. -/
def BinaryOperator.exact? : BinaryOperator → Option (ℚ → ℚ → ℚ)
  | .add => some fun u v => u + v
  | .subtract => some fun u v => u - v
  | .multiply => some fun u v => u * v
  | _ => none

/-- The three operators are exact on integers, and have the range of the exact result on doubles. -/
theorem exists_combine?_of_exact? (nesting : Nat) (h : operator.exact? = some exact) :
    ∃ (verb : String) (onInts : Int → Int → Int) (onDoubles : Double → Double → Double),
      (∀ a b : Number, operator.apply nesting (.number a) (.number b) =
        Value.arithmetic verb (Number.combine? onInts onDoubles) (.number a) (.number b)) ∧
      (∀ m n : Int, (onInts m n : ℚ) = exact m n) ∧
      ∀ x y s t, Number.rational? (.double x) = some s → Number.rational? (.double y) = some t →
        (onDoubles x y).HasRangeOf (exact s t) := by
  cases operator with
  | add =>
    obtain rfl := Option.some.inj h
    exact ⟨"add", (· + ·), Double.add, fun _ _ => rfl, Int.cast_add,
      fun _ _ _ _ => Number.hasRangeOf_add⟩
  | subtract =>
    obtain rfl := Option.some.inj h
    exact ⟨"subtract", (· - ·), Double.sub, fun _ _ => rfl, Int.cast_sub,
      fun _ _ _ _ => Number.hasRangeOf_sub⟩
  | multiply =>
    obtain rfl := Option.some.inj h
    exact ⟨"multiply", (· * ·), Double.mul, fun _ _ => rfl, Int.cast_mul,
      fun _ _ _ _ => Number.hasRangeOf_mul⟩
  | _ => cases h

/-- An operator that refuses its operands is reported with its symbol. -/
theorem applySymbol_symbol_eq_failed_iff {nesting : Nat} {left right : Value} {failure : Failure} :
    applySymbol nesting operator.symbol [left, right] = .error (.failed failure) ↔
      ∃ cause, operator.apply nesting left right = .error cause ∧
        failure = ⟨cause, some operator.symbol, none, none⟩ := by
  rw [applySymbol_symbol]
  cases operator.apply nesting left right with
  | error cause => simp [Except.mapError, eq_comm]
  | ok value => simp [Except.mapError]

/-- **Only what is converted is refused.** For two finite numbers `+`, `-` and `*` give a finite
number, a failure of the operator, or an infinity, never not a number. Two integers give the exact
integer. Otherwise a number that is beyond the range is refused, and nothing else is: where both
numbers have doubles, the result is infinite exactly if the exact result of these doubles is beyond
the range. -/
theorem applySymbol_arithmetic (nesting : Nat) (hexact : operator.exact? = some exact)
    (ha : a.rational? = some u) (hb : b.rational? = some v) :
    let outcome := applySymbol nesting operator.symbol [.number a, .number b]
    ((∃ result w, outcome = .ok (.number result) ∧ result.rational? = some w) ∨
      (∃ failure, outcome = .error (.failed failure) ∧ failure.operator = some operator.symbol) ∨
      ∃ sign, outcome = .ok (.number (.double (.infinity sign)))) ∧
    ((∃ m n, a = .int m ∧ b = .int n) → ∃ k : Int, outcome = .ok (.int k) ∧ k = exact u v) ∧
    ((∃ failure, outcome = .error (.failed failure)) ↔
      (¬∃ m n, a = .int m ∧ b = .int n) ∧ (limit ≤ |u| ∨ limit ≤ |v|)) ∧
    ∀ sign, outcome = .ok (.number (.double (.infinity sign))) ↔
      (¬∃ m n, a = .int m ∧ b = .int n) ∧ ∃ s t, a.rounded? = some s ∧ b.rounded? = some t ∧
        limit ≤ |exact s t| ∧ sign = decide (exact s t < 0) := by
  obtain ⟨verb, onInts, onDoubles, happly, honInts, honDoubles⟩ :=
    exists_combine?_of_exact? nesting hexact
  simp only [applySymbol_symbol_eq_ok_iff, applySymbol_symbol_eq_failed_iff, happly]
  refine ⟨?_, Number.exists_int_of_arithmetic honInts honDoubles ha hb, ?_,
    Number.arithmetic_eq_infinity_iff honInts honDoubles ha hb⟩
  · cases hvalue :
        Value.arithmetic verb (Number.combine? onInts onDoubles) (.number a) (.number b) with
    | error cause => exact .inr (.inl ⟨_, ⟨cause, rfl, rfl⟩, rfl⟩)
    | ok value =>
      rcases Number.finite_or_infinity_of_arithmetic honInts honDoubles ha hb hvalue with
        ⟨result, w, rfl, hw⟩ | ⟨sign, rfl⟩
      · exact .inl ⟨result, w, rfl, hw⟩
      · exact .inr (.inr ⟨sign, rfl⟩)
  · rw [← @Number.arithmetic_eq_error_iff _ _ _ _ _ verb _ _ honInts honDoubles ha hb]
    constructor
    · rintro ⟨failure, cause, hcause, -⟩
      exact ⟨cause, hcause⟩
    · rintro ⟨cause, hcause⟩
      exact ⟨_, cause, hcause, rfl⟩

/-- A double beside an integer that is beyond the range is refused, though the product is zero. -/
theorem applySymbol_arithmetic_zero :
    BinaryOperator.multiply.exact? = some (fun u v => u * v) ∧
      Number.rational? (.double (.ofInt 0)) = some 0 ∧
      Number.rational? (.int (2 ^ 1024)) = some (2 ^ 1024) ∧
      ∃ failure, applySymbol 1000 "*" [.number (.double (.ofInt 0)), .number (.int (2 ^ 1024))] =
        .error (.failed failure) := by
  have hzero : Number.rational? (.double (.ofInt 0)) = some 0 := by
    rw [← Int.cast_zero]
    exact Number.rational?_ofInt (by decide +kernel)
  have hlarge : Number.rational? (.int (2 ^ 1024)) = some (2 ^ 1024) := by
    rw [Number.rational?_int, Int.cast_pow, Int.cast_ofNat]
  have hlimit : limit ≤ |(2 : ℚ) ^ 1024| := by
    rw [abs_of_pos (by positivity), limit]
    exact sub_le_self _ (by positivity)
  have hexact : BinaryOperator.multiply.exact? = some fun u v => u * v := rfl
  obtain ⟨-, -, hrefused, -⟩ := applySymbol_arithmetic 1000 hexact hzero hlarge
  refine ⟨hexact, hzero, hlarge, hrefused.2 ⟨?_, .inr hlimit⟩⟩
  rintro ⟨m, n, ⟨⟩, -⟩

theorem multiply_eq_ok (nesting : Nat) {result : Number} (h : a.mul? b = some result) :
    BinaryOperator.multiply.apply nesting (.number a) (.number b) = .ok (.number result) := by
  show Value.arithmetic "multiply" Number.mul? (.number a) (.number b) = .ok (.number result)
  rw [Value.arithmetic, h]

/-- Twice the power of two before the last one that a double can be is infinite. -/
theorem applySymbol_multiply_infinite :
    let large : Number := .double (.ofInt (2 ^ 1023))
    large.rational? = some (2 ^ 1023) ∧ Number.rational? (.int 2) = some 2 ∧
      applySymbol 1000 "*" [.number large, .number (.int 2)] =
        .ok (.number (.double (.infinity false))) := by
  intro large
  have hlarge : large.rational? = some ((2 ^ 1023 : Int) : ℚ) :=
    Number.rational?_ofInt (by decide +kernel)
  have hmul : large.mul? (.int 2) = some (.double (.infinity false)) := by decide +kernel
  refine ⟨by rw [hlarge, Int.cast_pow, Int.cast_ofNat], Number.rational?_int, ?_⟩
  have happly := applySymbol_symbol_eq_ok_iff.2 (multiply_eq_ok 1000 hmul)
  exact happly

end Criteria
