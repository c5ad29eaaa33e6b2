import Criteria.Number.Basic

/-!
# Decimal text of doubles

The fewest decimal digits that lead back to a double, and their layout.

* `Double.shortest` searches the decimal grids of one to seventeen digits for a point that rounds to
  the double, and takes the nearer of the two neighbours, a tie going to the even one.
* `Layout` says how digits are laid out: which exponents are written with a point only, and what
  infinities and not a number are called.
-/

namespace Criteria

namespace Double

/-- The number of decimal digits of a positive number. -/
def decimalLength (n : Nat) : Nat := (Nat.toDigits 10 n).length

/-- The point of the grid `10 ^ exponent` that is nearest to `value` among those between `low` and
`high`, where all three count quarter units and the ends belong to the interval if `closed`. -/
def gridPoint? (low value high : Nat) (closed : Bool) (exponent : Int) : Option Nat :=
  let up := Nat.pow 10 (-exponent).toNat
  let step := Nat.pow 10 exponent.toNat * Nat.pow 2 (unitBits + 2)
  let inside (d : Nat) : Bool :=
    let x := d * step
    if closed then low * up ≤ x && x ≤ high * up else low * up < x && x < high * up
  let d := value * up / step
  let below := value * up - d * step
  let above := (d + 1) * step - value * up
  if inside d && inside (d + 1) then
    some (if below < above || (below == above && d % 2 == 0) then d else d + 1)
  else if inside d then some d
  else if inside (d + 1) then some (d + 1)
  else none

/-- The first grid among those of `count` and more digits, up to `count + more`, that has a point
leading back to the double, with its exponent. -/
def searchGrids (low value high : Nat) (closed : Bool) (leading : Int) :
    Nat → Nat → Option (Nat × Int)
  | _, 0 => none
  | count, more + 1 =>
    let exponent := leading - count + 1
    match gridPoint? low value high closed exponent with
    | some d => some (d, exponent)
    | none => searchGrids low value high closed leading (count + 1) more

/-- Digits and exponent of the shortest decimal that rounds to the positive double of a significand
and a shift. -/
def shortest (significand shift : Nat) : Nat × Int :=
  let value := 4 * significand * Nat.pow 2 shift
  let gap := if significand = Nat.pow 2 52 ∧ 0 < shift then 1 else 2
  let low := value - gap * Nat.pow 2 shift
  let high := value + 2 * Nat.pow 2 shift
  let leading : Int := decimalLength (value * Nat.pow 10 400 / Nat.pow 2 (unitBits + 2)) - 401
  (searchGrids low value high (significand % 2 == 0) leading 1 17).getD (0, 0)

end Double

/-- How the digits of a double are laid out. -/
structure Layout where
  /-- The least exponent written with a point only. -/
  leastPlain : Int
  /-- The greatest exponent written with a point only. -/
  greatestPlain : Int
  /-- The least number of digits of a written exponent. -/
  exponentWidth : Nat
  /-- The name of the positive infinity. -/
  infinity : String
  /-- The name of not a number. -/
  nan : String

/-- Exponents from -4 to 15 are written with a point only, others with a sign and two digits. -/
def Layout.standard : Layout := ⟨-4, 15, 2, "inf", "nan"⟩

namespace Layout

/-- The exponent part of a number. -/
def exponentText (layout : Layout) (e : Int) : List Char :=
  let digits := Nat.toDigits 10 e.natAbs
  'e' :: (if e < 0 then '-' else '+') ::
    (List.replicate (layout.exponentWidth - digits.length) '0' ++ digits)

/-- Digits whose first one counts `10 ^ e`, laid out; `digits` is not empty and does not end in a
zero unless it is one digit. -/
def digitsText (layout : Layout) (digits : List Char) (e : Int) : List Char :=
  if layout.leastPlain ≤ e && e ≤ layout.greatestPlain then
    if e < 0 then '0' :: '.' :: (List.replicate (-e - 1).toNat '0' ++ digits)
    else
      let whole := e.toNat + 1
      let tail := digits.drop whole
      digits.take whole ++ List.replicate (whole - digits.length) '0' ++
        '.' :: (if tail.isEmpty then ['0'] else tail)
  else
    digits.take 1 ++ (if digits.length ≤ 1 then [] else '.' :: digits.drop 1) ++
      layout.exponentText e

/-- Digits without the zeros at their end, the first digit excepted. -/
def trimZeros (digits : List Char) : List Char :=
  digits.take 1 ++ ((digits.drop 1).reverse.dropWhile (· == '0')).reverse

/-- The text of a double. -/
def text (layout : Layout) : Double → String
  | .nan => layout.nan
  | .infinity negative => (if negative then "-" else "") ++ layout.infinity
  | .finite negative significand shift _ =>
    let body :=
      if significand = 0 then layout.digitsText ['0'] 0
      else
        let (d, exponent) := Double.shortest significand shift
        let digits := Nat.toDigits 10 d
        layout.digitsText (trimZeros digits) (exponent + digits.length - 1)
    (if negative then "-" else "") ++ String.ofList body

example : Layout.standard.text (Double.ofDecimal false 5 (-324)) = "5e-324" := by decide +kernel

example : Layout.standard.text (Double.ofDecimal true 1234 (-2)) = "-12.34" := by decide +kernel

end Layout

end Criteria
