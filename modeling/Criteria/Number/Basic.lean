import Criteria.Number.Double

/-!
# Numbers

A number is an integer of any size or a double. Integers are added, subtracted and multiplied
exactly; as soon as one side is a double, the other is converted to a double first, and an integer
beyond the range of doubles has no such conversion.

* `Number.level?` places every number other than not a number on one line, by its exact value in
  units; `equal` and `less` compare by that place, so no comparison rounds.
* `add?`, `sub?`, `mul?` fail exactly when a conversion fails; `div` never fails.
-/

namespace Criteria

/-- A place on the line of numbers: below all numbers, at a number of units, above all numbers. -/
inductive Level
  | bottom
  | at (units : Int)
  | top
  deriving DecidableEq

/-- The order of the line of numbers. -/
def Level.less : Level → Level → Bool
  | .bottom, .bottom => false
  | .bottom, _ => true
  | .at m, .at n => decide (m < n)
  | .at _, .top => true
  | _, _ => false

/-- An integer of any size or a double. -/
inductive Number
  | int (n : Int)
  | double (x : Double)
  deriving DecidableEq

namespace Number

/-- The place of a number on the line; not a number has none. -/
def level? : Number → Option Level
  | .int n => some (.at (n * Nat.pow 2 Double.unitBits))
  | .double .nan => none
  | .double (.infinity negative) => some (if negative then .bottom else .top)
  | .double (.finite negative significand shift _) =>
    some (.at (Double.signed negative (significand * Nat.pow 2 shift)))

/-- Whether two numbers have the same exact value. -/
def equal (a b : Number) : Bool :=
  match a.level?, b.level? with
  | some x, some y => x == y
  | _, _ => false

/-- Whether one number is less than another by exact value. -/
def less (a b : Number) : Bool :=
  match a.level?, b.level? with
  | some x, some y => x.less y
  | _, _ => false

/-- The integer zero. -/
def zero : Number := .int 0

/-- Whether a number is zero, of either sign. -/
def isZero (a : Number) : Bool := a.equal zero

/-- Whether a number is not a number. -/
def isNaN : Number → Bool
  | .int _ => false
  | .double x => x.isNaN

/-- Whether a number is below zero. -/
def isNegative (a : Number) : Bool := a.less zero

/-- Whether a number is above zero. -/
def isPositive (a : Number) : Bool := zero.less a

/-- Whether the sign of a double is set; integers have no sign of their own at zero. -/
def signBit : Number → Bool
  | .int n => decide (n < 0)
  | .double x => x.signBit

/-- The double of a number, unless the number is an integer beyond the range. -/
def toDouble? : Number → Option Double
  | .int n => Double.ofInt? n
  | .double x => some x

/-- Apply an operation, exactly on two integers and otherwise on the doubles of both sides. -/
def combine? (onInts : Int → Int → Int) (onDoubles : Double → Double → Double) :
    Number → Number → Option Number
  | .int m, .int n => some (.int (onInts m n))
  | a, b => do
    let x ← a.toDouble?
    let y ← b.toDouble?
    return .double (onDoubles x y)

/-- The sum. -/
def add? : Number → Number → Option Number := combine? (· + ·) Double.add

/-- The difference. -/
def sub? : Number → Number → Option Number := combine? (· - ·) Double.sub

/-- The product. -/
def mul? : Number → Number → Option Number := combine? (· * ·) Double.mul

/-- The quotient, always a double. The quotient of integers is rounded once. A zero divisor gives an
infinity whose sign is that of the dividend times the sign bit of the divisor, or no number if the
dividend is zero or no number itself. An integer beyond the range beside a double gives an infinity
with the sign of the quotient. -/
def div (a b : Number) : Double :=
  if b.isZero then
    if a.isZero || a.isNaN then .nan else .infinity (a.isPositive == b.signBit)
  else
    match a, b with
    | .int m, .int n => Double.ofQuotient m n
    | a, b =>
      match a.toDouble?, b.toDouble? with
      | some x, some y => x.div y
      | _, _ => .infinity (a.isNegative != b.isNegative)

end Number

end Criteria
