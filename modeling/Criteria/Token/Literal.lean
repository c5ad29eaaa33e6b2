import Criteria.Value.Basic
import Criteria.Text.Numeral

/-!
# Literals

* A numeral is a sign or none, ASCII digits, a point with digits or none, an exponent or none. Only
  its sign and its first digits count: a literal number is an integer.
* A quoted literal begins and ends with a quote; it stands for its characters without any quotes.
* The words `null`, `undefined`, `true` and `false` stand for themselves.
-/

namespace Criteria.Literal

/-- Whether characters are nothing, or an exponent. -/
def isExponentPart : List Char → Bool
  | [] => true
  | c :: rest =>
    let digits := (Numeral.readSign rest).2
    (c == 'e' || c == 'E') && !digits.isEmpty && digits.all Char.isDigit

/-- Whether characters may follow the first digits of a numeral. -/
def isNumeralTail : List Char → Bool
  | '.' :: rest => isExponentPart (rest.dropWhile Char.isDigit)
  | rest => isExponentPart rest

/-- The sign of a numeral, as whether it is a minus, and its first digits. -/
def numeralParts? (text : List Char) : Option (Bool × List Char) :=
  let (negative, body) := Numeral.readSign text
  let digits := body.takeWhile Char.isDigit
  if !digits.isEmpty && isNumeralTail (body.dropWhile Char.isDigit) then some (negative, digits)
  else none

/-- The integer that a numeral stands for, unless it has too many digits. -/
def readNumeral? (text : List Char) : Option (Except Numeral.TooLong Int) :=
  (numeralParts? text).map fun (negative, digits) =>
    (Numeral.readDigits digits).map fun n => Double.signed negative n

/-- The mark around a quoted literal. -/
def quote : Char := '\x27'

/-- The characters that a quoted literal stands for. -/
def readQuoted? (text : List Char) : Option (List Char) :=
  if 2 ≤ text.length ∧ text.head? = some quote ∧ text.getLast? = some quote then
    some (text.filter (· != quote))
  else none

/-- The values of the words that stand for themselves. -/
def words : List (String × Value) :=
  [("null", .null), ("undefined", .undefined), ("true", .bool true), ("false", .bool false)]

/-- The value of a literal, if characters are one. -/
def read? (text : List Char) : Option (Except Numeral.TooLong Value) :=
  match words.lookup (String.ofList text), readNumeral? text, readQuoted? text with
  | some value, _, _ => some (.ok value)
  | none, some result, _ => some (result.map Value.int)
  | none, none, some body => some (.ok (.str (Text.ofChars body)))
  | none, none, none => none

end Criteria.Literal
