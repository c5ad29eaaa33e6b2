import Criteria.Datum
import Criteria.Text.Numeral
import Criteria.Yaml.Moment
import Criteria.Yaml.Node

/-!
# What scalars stand for

The text of a plain scalar may stand for null, a truth value, a number or a moment, by the rules of
YAML 1.1:

* integers are binary, octal, decimal or hexadecimal, or groups of base sixty; underscores are
  passed over;
* other numbers have a point, and an exponent only with a sign; their groups may be of base sixty as
  well.

`Node.datum` is the datum of a node. A key has to be a scalar. The text `<<` has no meaning here,
and `=` only as a key.
-/

namespace Criteria.Yaml

/-- The words for null. -/
def nullWords : List String := ["", "~", "null", "Null", "NULL"]

/-- The words for truth values. -/
def boolWords : List (String × Bool) :=
  [("yes", true), ("true", true), ("on", true), ("no", false), ("false", false), ("off", false)]

/-- The spellings of a word: all small, the first letter capital, all capital. -/
def spellings (word : String) : List String := [word, word.capitalize, word.toUpper]

/-- The truth value that a text stands for. -/
def boolOf? (text : String) : Option Bool :=
  (boolWords.find? fun (word, _) => (spellings word).contains text).map (·.2)

/-! ### Digits -/

/-- Whether characters are digits of a base and underscores. -/
def areDigits (base : Nat) (digits : List Char) : Bool :=
  digits.all fun c => c == '_' || (Hexadecimal.digit? c).any (· < base)

/-- Digits without underscores. -/
def bareDigits (digits : List Char) : List Char := digits.filter (· != '_')

/-- The number that digits of a base stand for; at least one digit is needed. -/
def numberIn? (base : Nat) (digits : List Char) : Option Nat :=
  if (bareDigits digits).isEmpty then none
  else some ((bareDigits digits).foldl (fun n c => base * n + (Hexadecimal.digit? c).getD 0) 0)

/-- The groups of a text between colons. -/
def groups : List Char → List (List Char)
  | [] => [[]]
  | c :: rest =>
    if c = ':' then [] :: groups rest
    else
      match groups rest with
      | [] => [[c]]
      | group :: more => (c :: group) :: more

/-- Whether a group may follow another one: one digit, or two that are less than sixty. -/
def isLaterGroup : List Char → Bool
  | [c] => c.isDigit
  | [c, d] => c.isDigit && c ≤ '5' && d.isDigit
  | _ => false

/-- Whether characters begin with a digit and hold digits and underscores. -/
def isFirstGroup (group : List Char) : Bool :=
  group.head?.any Char.isDigit && areDigits 10 group

/-! ### Integers -/

/-- The integer that groups of base sixty stand for, unless one has too many digits. -/
def ofGroups? (parts : List (List Char)) : Option Nat :=
  parts.foldlM
    (fun n part =>
      match Numeral.readDigits (bareDigits part) with
      | .ok d => some (60 * n + d)
      | .error _ => none) 0

/-- The integer that a text without a sign stands for: nothing if it is no integer, and `none`
inside if it cannot be read. -/
def natural? (body : List Char) : Option (Option Nat) :=
  match body with
  | '0' :: 'b' :: digits =>
    if !digits.isEmpty && areDigits 2 digits then some (numberIn? 2 digits) else none
  | '0' :: 'x' :: digits =>
    if !digits.isEmpty && areDigits 16 digits then some (numberIn? 16 digits) else none
  | '0' :: digits => if areDigits 8 digits then some (numberIn? 8 ('0' :: digits)) else none
  | body =>
    match groups body with
    | first :: later =>
      if isFirstGroup first && later.all isLaterGroup then some (ofGroups? (first :: later))
      else none
    | [] => none

/-- The integer that a text stands for. -/
def integer? (text : List Char) : Option (Option Int) :=
  let (negative, body) := Numeral.readSign text
  (natural? body).map (·.map fun n => Double.signed negative n)

/-! ### Other numbers -/

/-- The exponent after a fraction: a letter, a sign and digits, or nothing. -/
def fractionExponent? : List Char → Option Int
  | [] => some 0
  | c :: sign :: digits =>
    if (c = 'e' ∨ c = 'E') ∧ (sign = '+' ∨ sign = '-') ∧ digits ≠ [] ∧ digits.all Char.isDigit then
      some (Double.signed (sign = '-') (Numeral.valueOf digits))
    else none
  | _ => none

/-- The double of digits before and after a point. -/
def decimal (negative : Bool) (whole fraction : List Char) (exponent : Int) : Double :=
  let fraction := bareDigits fraction
  Double.ofDecimal negative (Numeral.valueOf (bareDigits whole ++ fraction))
    (exponent - fraction.length)

/-- The sum of groups of base sixty, of which the last one comes first; `weight` is what one unit of
the first group counts. -/
def sumGroups (sum : Double) (weight : Nat) : List Double → Except Fault Double
  | [] => .ok sum
  | group :: more =>
    match Double.ofInt? weight with
    | some factor => sumGroups (sum.add (group.mul factor)) (weight * 60) more
    | none => .error .weightTooLarge

/-- The double of groups of base sixty, the last of which has a fraction. -/
def ofFractionGroups (parts : List (List Char)) (fraction : List Char) : Except Fault Double :=
  match parts.reverse with
  | [] => .ok (Double.zero false)
  | last :: more =>
    sumGroups (Double.zero false) 1
      (decimal false last fraction 0 :: more.map fun part => decimal false part [] 0)

/-- The double of a text with a point that splits it into two parts. -/
def pointed? (signed negative : Bool) (whole after : List Char) : Option (Except Fault Double) :=
  let fraction := after.takeWhile fun c => c == '_' || c.isDigit
  let rest := after.dropWhile fun c => c == '_' || c.isDigit
  match groups whole with
  | [[]] =>
    if !signed && fraction.head?.any Char.isDigit then
      (fractionExponent? rest).map fun e => .ok (decimal false [] fraction e)
    else none
  | [only] =>
    if isFirstGroup only then
      (fractionExponent? rest).map fun e => .ok (decimal negative only fraction e)
    else none
  | first :: later =>
    if isFirstGroup first && later.all isLaterGroup && rest.isEmpty then
      some ((ofFractionGroups (first :: later) fraction).map fun x => if negative then x.neg else x)
    else none
  | [] => none

/-- The names of infinity. -/
def infinityWords : List String := ["inf", "Inf", "INF"]

/-- The names of not a number. -/
def nanWords : List String := ["nan", "NaN", "NAN"]

/-- The double that a text stands for, if it has the form of one. -/
def double? (text : List Char) : Option (Except Fault Double) :=
  let (negative, body) := Numeral.readSign text
  let signed := body.length < text.length
  let whole := body.takeWhile (· != '.')
  match body.dropWhile (· != '.') with
  | _ :: after =>
    let word := String.ofList after
    if whole.isEmpty && infinityWords.contains word then some (.ok (.infinity negative))
    else if whole.isEmpty && !signed && nanWords.contains word then some (.ok .nan)
    else pointed? signed negative whole after
  | [] => none

/-! ### Scalars and nodes -/

/-- The scalar of a text that stands for no number: null, a moment, or the text itself. -/
def resolveWord (text : List Char) : Except Fault Scalar :=
  if nullWords.contains (String.ofList text) then .ok .null
  else
    match Moment.read? text with
    | some moment =>
      if moment.isValid then .ok (.moment (Text.ofChars text)) else .error .malformed
    | none => .ok (.text (Text.ofChars text))

/-- The scalar that a plain text stands for. -/
def resolve (text : List Char) : Except Fault Scalar :=
  match boolOf? (String.ofList text), double? text, integer? text with
  | some b, _, _ => .ok (.bool b)
  | none, some x, _ => x.map fun x => .number (.double x)
  | none, none, some n => (wellFormed n).map fun n => .number (.int n)
  | none, none, none => resolveWord text

/-- The text that has no meaning. -/
def mergeText : Text := Text.ofString "<<"

/-- The text that has a meaning only as a key. -/
def defaultText : Text := Text.ofString "="

/-- The scalar of a text. -/
def scalarOf (text : Text) (isPlain : Bool) : Except Fault Scalar :=
  match isPlain, Text.toChars? text with
  | true, some chars => if text = mergeText then .error .malformed else resolve chars
  | _, _ => .ok (.text text)

mutual

/-- The datum of a node. -/
def Node.datum : Node → Except Fault Datum
  | .scalar text isPlain =>
    if isPlain && text == defaultText then .error .malformed
    else (scalarOf text isPlain).map .scalar
  | .sequence items => (itemsData items).map .sequence
  | .mapping entries => (entriesData entries).map fun written => .mapping (Datum.entriesOf written)

/-- The data of items. -/
def itemsData : List Node → Except Fault (List Datum)
  | [] => .ok []
  | item :: items => do
    let datum ← item.datum
    return datum :: (← itemsData items)

/-- The entries of a mapping as they are written. -/
def entriesData : List (Node × Node) → Except Fault Entries
  | [] => .ok []
  | (.scalar text isPlain, value) :: entries => do
    let key ← scalarOf text isPlain
    let datum ← value.datum
    return (key, datum) :: (← entriesData entries)
  | _ :: _ => .error .malformed

end

/-- Read a text as YAML. -/
def read (text : List Char) : Except Fault Datum := do
  (← wellFormed (readDocument? (← tokens text))).datum

end Criteria.Yaml
