/-!
# Doubles

The numbers of the IEEE 754 format with 53 significant bits, as exact data.

* Every finite double is a whole multiple of the least positive one, the *unit* `2 ^ -1074`. It is
  given by a sign, a significand `m` and a shift `p`, and stands for `m * 2 ^ p` units. The pair
  `(m, p)` is canonical, so different data are different doubles; zero keeps its sign.
* `units` is the signed number of units, `ofBits` and `toBits` are the interchange format.
* `ofUnits` rounds a quotient of natural numbers, taken as a number of units, to the nearest double,
  ties to the even significand; a quotient beyond the range becomes infinite. Every operation below
  computes its result exactly and rounds it once by `ofUnits`.

Powers are taken by `Nat.pow` itself, so that it does not matter which instance of `^` is in scope.
-/

namespace Criteria

namespace Double

/-- The exponent of the unit: a unit is `2 ^ -1074`. -/
def unitBits : Nat := 1074

/-- The greatest shift of a finite double. -/
def maxShift : Nat := 2045

/-- The pairs of significand and shift that name a finite magnitude: the significand has 53 bits,
and fewer only without a shift. -/
def IsCanonical (significand shift : Nat) : Prop :=
  significand < Nat.pow 2 53 ∧ shift ≤ maxShift ∧ (Nat.pow 2 52 ≤ significand ∨ shift = 0)

instance (significand shift : Nat) : Decidable (IsCanonical significand shift) := by
  unfold IsCanonical; infer_instance

end Double

/-- A double: not a number, infinite, or finite with a sign and a canonical magnitude. -/
inductive Double
  | nan
  | infinity (negative : Bool)
  | finite (negative : Bool) (significand shift : Nat)
      (canonical : Double.IsCanonical significand shift)
  deriving DecidableEq

namespace Double

theorem isCanonical_zero : IsCanonical 0 0 := by decide

/-- The zero of a sign. -/
def zero (negative : Bool) : Double := .finite negative 0 0 isCanonical_zero

/-- Whether a double is not a number. -/
def isNaN : Double → Bool
  | .nan => true
  | _ => false

/-- Whether a double is finite. -/
def isFinite : Double → Bool
  | .finite .. => true
  | _ => false

/-- Whether the sign of a double is set; not a number counts as unsigned. -/
def signBit : Double → Bool
  | .nan => false
  | .infinity negative => negative
  | .finite negative .. => negative

/-- The integer with a sign and a magnitude. -/
def signed (negative : Bool) (magnitude : Nat) : Int :=
  if negative then -(magnitude : Int) else magnitude

/-- The number of units of a finite double. -/
def units? : Double → Option Int
  | .finite negative significand shift _ => some (signed negative (significand * Nat.pow 2 shift))
  | _ => none

/-! ### Rounding -/

/-- The natural number nearest to a quotient, ties to the even one. -/
def roundHalfEven (num den : Nat) : Nat :=
  let q := num / den
  let r := num % den
  if 2 * r < den then q
  else if den < 2 * r then q + 1
  else if q % 2 = 0 then q
  else q + 1

/-- The double of a significand of at most `2 ^ 53` and a shift. A significand of `2 ^ 53` is
carried into the shift, and a shift beyond the greatest one makes the double infinite. -/
def pack (negative : Bool) (significand shift : Nat) : Double :=
  if h : IsCanonical significand shift then .finite negative significand shift h
  else if h : IsCanonical (Nat.pow 2 52) (shift + 1) then
    .finite negative (Nat.pow 2 52) (shift + 1) h
  else .infinity negative

/-- The double nearest to `num / den` units, ties to the even significand. The shift is the least
one for which the significand has at most 53 bits. -/
def ofUnits (negative : Bool) (num den : Nat) : Double :=
  let shift := (num / den).log2 - 52
  pack negative (roundHalfEven num (den * Nat.pow 2 shift)) shift

/-- The double nearest to an integer. -/
def ofInt (n : Int) : Double := ofUnits (n < 0) (n.natAbs * Nat.pow 2 unitBits) 1

/-- The double nearest to an integer, unless the integer is beyond the range. -/
def ofInt? (n : Int) : Option Double :=
  if (ofInt n).isFinite then some (ofInt n) else none

/-- The double nearest to a quotient of integers with a denominator other than zero. -/
def ofQuotient (m n : Int) : Double :=
  ofUnits ((m < 0) != (n < 0)) (m.natAbs * Nat.pow 2 unitBits) n.natAbs

/-- The double nearest to `digits * 10 ^ exponent`. Far beyond the range the exponent no longer
matters, so it is cut there before powers are taken. -/
def ofDecimal (negative : Bool) (digits : Nat) (exponent : Int) : Double :=
  let bound : Int := 400
  let e := max (-(digits.log2 + bound)) (min exponent bound)
  if 0 ≤ e then ofUnits negative (digits * Nat.pow 10 e.toNat * Nat.pow 2 unitBits) 1
  else ofUnits negative (digits * Nat.pow 2 unitBits) (Nat.pow 10 (-e).toNat)

/-! ### Arithmetic -/

/-- The double with the other sign. -/
def neg : Double → Double
  | .nan => .nan
  | .infinity negative => .infinity !negative
  | .finite negative significand shift h => .finite (!negative) significand shift h

/-- The sum. An exact sum of zero is positive unless both terms are negative zeros. -/
def add : Double → Double → Double
  | .nan, _ | _, .nan => .nan
  | .infinity s, .infinity t => if s = t then .infinity s else .nan
  | .infinity s, .finite .. => .infinity s
  | .finite .., .infinity t => .infinity t
  | .finite s m p _, .finite t n q _ =>
    let sum := signed s (m * Nat.pow 2 p) + signed t (n * Nat.pow 2 q)
    ofUnits (decide (sum < 0) || (decide (sum = 0) && s && t)) sum.natAbs 1

/-- The difference. -/
def sub (x y : Double) : Double := add x (neg y)

/-- The product. -/
def mul : Double → Double → Double
  | .nan, _ | _, .nan => .nan
  | .infinity s, .infinity t => .infinity (s != t)
  | .infinity s, .finite t n _ _ => if n = 0 then .nan else .infinity (s != t)
  | .finite s m _ _, .infinity t => if m = 0 then .nan else .infinity (s != t)
  | .finite s m p _, .finite t n q _ =>
    ofUnits (s != t) (m * Nat.pow 2 p * (n * Nat.pow 2 q)) (Nat.pow 2 unitBits)

/-- The quotient. A zero divisor gives an infinity, or no number under a zero dividend. -/
def div : Double → Double → Double
  | .nan, _ | _, .nan => .nan
  | .infinity _, .infinity _ => .nan
  | .infinity s, .finite t _ _ _ => .infinity (s != t)
  | .finite s _ _ _, .infinity t => zero (s != t)
  | .finite s m p _, .finite t n q _ =>
    if n = 0 then (if m = 0 then .nan else .infinity (s != t))
    else ofUnits (s != t) (m * Nat.pow 2 p * Nat.pow 2 unitBits) (n * Nat.pow 2 q)

/-! ### Interchange format -/

/-- The double of a 64-bit word: a sign bit, eleven bits of exponent, 52 bits of fraction. -/
def ofBits (word : Nat) : Double :=
  let negative := word / Nat.pow 2 63 % 2 = 1
  let field := word / Nat.pow 2 52 % Nat.pow 2 11
  let fraction := word % Nat.pow 2 52
  if field = 2047 then (if fraction = 0 then .infinity negative else .nan)
  else if field = 0 then pack negative fraction 0
  else pack negative (Nat.pow 2 52 + fraction) (field - 1)

/-- The 64-bit word of a double, the quiet one without payload for not a number. -/
def toBits : Double → Nat
  | .nan => 0x7FF8000000000000
  | .infinity negative => (if negative then Nat.pow 2 63 else 0) + 2047 * Nat.pow 2 52
  | .finite negative significand shift _ =>
    (if negative then Nat.pow 2 63 else 0) +
      if significand < Nat.pow 2 52 then significand else shift * Nat.pow 2 52 + significand

example : ofDecimal false 1 (-1) = ofBits 0x3FB999999999999A := by decide +kernel

example : (ofInt 3).div (ofInt 0) = .infinity false := by decide +kernel

end Double

end Criteria
