import Criteria.Text.Blank
import Criteria.Text.DecimalDigit

/-!
# Decimal numerals

Numerals of at most `digitLimit` digits are read and written; longer ones are refused. Leading zeros
count as digits, a sign does not.

* `readDigits` reads a run of ASCII digits;
* `readSetting?` reads the integer of a setting: blanks around it, a sign, digits of any Unicode
  set, single underscores between digits.
-/

namespace Criteria.Numeral

/-- The greatest number of digits of a numeral. -/
def digitLimit : Nat := 4300

/-- A numeral with too many digits. -/
structure TooLong where
  digits : Nat
  deriving DecidableEq

/-- The words for a numeral that was refused when it was read. -/
def TooLong.message (e : TooLong) : String :=
  s!"Exceeds the limit ({digitLimit} digits) for integer string conversion: " ++
    s!"value has {e.digits} digits; use sys.set_int_max_str_digits() to increase the limit"

/-- The words for an integer that was refused when it was written. -/
def writtenTooLongMessage : String :=
  s!"Exceeds the limit ({digitLimit} digits) for integer string conversion; " ++
    "use sys.set_int_max_str_digits() to increase the limit"

/-- The number that a list of decimal digits stands for. -/
def ofDigits (digits : List Nat) : Nat := digits.foldl (fun n d => 10 * n + d) 0

/-- The number that ASCII digits stand for, of any length. -/
def valueOf (digits : List Char) : Nat := ofDigits (digits.map digitValue)

/-- Read a run of ASCII digits. -/
def readDigits (digits : List Char) : Except TooLong Nat :=
  if digitLimit < digits.length then .error ⟨digits.length⟩ else .ok (valueOf digits)

/-- The decimal text of an integer, unless it has too many digits. -/
def write? (n : Int) : Option String :=
  if digitLimit < (Nat.toDigits 10 n.natAbs).length then none else some (toString n)

/-- The sign in front of a numeral, as whether it is a minus, and what follows it. -/
def readSign : List Char → Bool × List Char
  | '-' :: rest => (true, rest)
  | '+' :: rest => (false, rest)
  | rest => (false, rest)

/-- Digits of any set with single underscores between them, after at least one digit. -/
def readMoreDigits? : List Char → Option (List Nat)
  | [] => some []
  | '_' :: c :: rest => do
    let d ← decimalDigit? c
    return d :: (← readMoreDigits? rest)
  | c :: rest => do
    let d ← decimalDigit? c
    return d :: (← readMoreDigits? rest)

/-- One or more digits of any set with single underscores between them. -/
def readGroupedDigits? : List Char → Option (List Nat)
  | [] => none
  | c :: rest => do
    let d ← decimalDigit? c
    return d :: (← readMoreDigits? rest)

/-- Whether a blank may stand around an integer; the ASCII separators may not. -/
def isOuterBlank (c : Char) : Bool := isBlank c && !(0x1C ≤ c.toNat && c.toNat ≤ 0x1F)

/-- A list of characters without the outer blanks at both ends. -/
def trim (cs : List Char) : List Char :=
  ((cs.dropWhile isOuterBlank).reverse.dropWhile isOuterBlank).reverse

/-- Read the integer of a setting. -/
def readSetting? (cs : List Char) : Option Int := do
  let (negative, body) := readSign (trim cs)
  let digits ← readGroupedDigits? body
  if digitLimit < digits.length then none
  else
    let n : Int := ofDigits digits
    return if negative then -n else n

end Criteria.Numeral
