import Criteria.Json.Basic
import Criteria.Text.Hexadecimal

/-!
# Strings, numbers and words of JSON text

* `readString` reads a string after its opening quote. Numeric escapes of two surrogates that form a
  pair give one character, any other surrogate stays as it is;
* `readNumber?` reads a number: without fraction and exponent it is an integer, else a double;
* `readWord?` reads `null`, the truth values, and the names of infinities and of not a number.
-/

namespace Criteria.Json

/-! ### Strings -/

/-- The character that a backslash and a letter stand for. -/
def escaped? : Char → Option Char
  | '"' => some '"'
  | '\\' => some '\\'
  | '/' => some '/'
  | 'b' => some '\x08'
  | 'f' => some '\x0c'
  | 'n' => some '\n'
  | 'r' => some '\r'
  | 't' => some '\t'
  | _ => none

/-- The number that hexadecimal digits stand for. -/
def hexNumber? (digits : Text) : Option Nat := (Text.toChars? digits).bind Hexadecimal.number?

/-- Whether a number is that of the first half of a pair of surrogates. -/
def isLeading (n : Nat) : Bool := 0xD800 ≤ n && n ≤ 0xDBFF

/-- Whether a number is that of the second half of a pair of surrogates. -/
def isTrailing (n : Nat) : Bool := 0xDC00 ≤ n && n ≤ 0xDFFF

/-- The code point of a number below `0x110000`. -/
def codePoint (n : Nat) : CodePoint := (CodePoint.ofNat? n).getD (.scalar '\x00')

/-- The code point that a pair of surrogates stands for. -/
def joined (leading trailing : Nat) : CodePoint :=
  codePoint (0x10000 + (leading - 0xD800) * 0x400 + (trailing - 0xDC00))

/-- Read a numeric escape after its letter, which stands at an index: the code point, and how many
code points are read. -/
def readNumericEscape (index : Nat) (rest : Text) : Except Fault (CodePoint × Nat) :=
  match rest with
  | a :: b :: c :: d :: next :: more =>
    match hexNumber? [a, b, c, d] with
    | none => .error (.malformed .numericEscape index)
    | some n =>
      match isLeading n, next, more with
      | true, .scalar '\\', .scalar 'u' :: e :: f :: g :: h :: _ :: _ =>
        match hexNumber? [e, f, g, h] with
        | none => .error (.malformed .numericEscape (index + 6))
        | some m => if isTrailing m then .ok (joined n m, 10) else .ok (codePoint n, 4)
      | _, _, _ => .ok (codePoint n, 4)
  | _ => .error (.malformed .numericEscape index)

/-- Read an escape after its backslash, which stands at an index. -/
def readEscape (start index : Nat) (rest : Text) : Except Fault (CodePoint × Nat) :=
  match rest with
  | [] => .error (.malformed .openString start)
  | .surrogate _ :: _ => .error (.malformed .escape index)
  | .scalar c :: more =>
    if c = 'u' then (readNumericEscape (index + 1) more).map fun (p, count) => (p, count + 1)
    else
      match escaped? c with
      | some d => .ok (.scalar d, 1)
      | none => .error (.malformed .escape index)

/-- Read a string whose opening quote stands at `start`, from an index on, after passing over
`passed` code points that belong to an escape. -/
def readStringFrom (start : Nat) : Text → Nat → Nat → Except Fault (Text × Cursor)
  | [], _, _ => .error (.malformed .openString start)
  | _ :: rest, index, passed + 1 => readStringFrom start rest (index + 1) passed
  | p :: rest, index, 0 =>
    if p = .scalar '"' then .ok ([], ⟨index + 1, rest⟩)
    else if p = .scalar '\\' then do
      let (q, count) ← readEscape start index rest
      let (text, cursor) ← readStringFrom start rest (index + 1) count
      return (q :: text, cursor)
    else if p.toNat < 0x20 then .error (.malformed .controlCharacter index)
    else do
      let (text, cursor) ← readStringFrom start rest (index + 1) 0
      return (p :: text, cursor)

/-- Read a string; the place is that of its opening quote. -/
def readString (cursor : Cursor) : Except Fault (Text × Cursor) :=
  readStringFrom cursor.index (cursor.rest.drop 1) (cursor.index + 1) 0

/-! ### Numbers -/

/-- Whether a code point is an ASCII digit. -/
def isDigit : CodePoint → Bool
  | .scalar c => c.isDigit
  | .surrogate _ => false

/-- The ASCII digits at the beginning of a text. -/
def leadingDigits (t : Text) : List Char :=
  (t.takeWhile isDigit).filterMap fun
    | .scalar c => some c
    | .surrogate _ => none

/-- The digits of the whole part of a number: one zero, or digits of which the first is no zero. -/
def wholeDigits (t : Text) : List Char :=
  match leadingDigits t with
  | '0' :: _ => ['0']
  | digits => digits

/-- The digits of the fraction of a number, after its point. -/
def fractionDigits : Text → List Char
  | .scalar '.' :: rest => leadingDigits rest
  | _ => []

/-- The sign in front of an exponent, as whether it is a minus, and its width. -/
def exponentSign : Text → Bool × Nat
  | .scalar '-' :: _ => (true, 1)
  | .scalar '+' :: _ => (false, 1)
  | _ => (false, 0)

/-- The exponent of a number and its width, if there is one. -/
def readExponent? : Text → Option (Int × Nat)
  | .scalar c :: rest =>
    let (negative, width) := exponentSign rest
    let digits := leadingDigits (rest.drop width)
    if (c = 'e' ∨ c = 'E') ∧ digits ≠ [] then
      some (Double.signed negative (Numeral.valueOf digits), 1 + width + digits.length)
    else none
  | _ => none

/-- Read the number at a place, if one stands there. -/
def readNumber? (cursor : Cursor) : Option (Except Fault (Number × Cursor)) :=
  let negative := cursor.rest.head? = some (.scalar '-')
  let unsigned := if negative then cursor.advance 1 else cursor
  let whole := wholeDigits unsigned.rest
  if whole = [] then none
  else
    let afterWhole := unsigned.advance whole.length
    let fraction := fractionDigits afterWhole.rest
    let afterFraction :=
      if fraction = [] then afterWhole else afterWhole.advance (1 + fraction.length)
    match fraction, readExponent? afterFraction.rest with
    | [], none =>
      some do
        let n ← (Numeral.readDigits whole).mapError .numeralTooLong
        return (.int (Double.signed negative n), afterFraction)
    | fraction, exponent? =>
      let (exponent, width) := exponent?.getD (0, 0)
      let digits := Numeral.valueOf (whole ++ fraction)
      some (.ok (.double (Double.ofDecimal negative digits (exponent - fraction.length)),
        afterFraction.advance width))

/-! ### Words -/

/-- The words of JSON text with their values. -/
def words : List (String × Value) :=
  [("null", .null), ("true", .bool true), ("false", .bool false), ("NaN", .number (.double .nan)),
   ("Infinity", .number (.double (.infinity false))),
   ("-Infinity", .number (.double (.infinity true)))]

/-- Read the word at a place, if one stands there. -/
def readWord? (cursor : Cursor) : Option (Value × Cursor) :=
  (words.find? fun (word, _) => (Text.ofString word).isPrefixOf cursor.rest).map
    fun (word, value) => (value, cursor.advance word.length)

end Criteria.Json
