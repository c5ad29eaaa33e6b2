import Criteria.Number.Basic
import Criteria.Text.CodePoint

/-!
# Values

The data that a condition is evaluated against, and what it evaluates to.

* `Value`: the two empty values `undefined` and `null`, truth values, numbers, texts, arrays,
  objects. Arrays and objects carry an `Identity`, since two of them with the same content may be one
  and the same or not;
* `Value.kind`, the kinds that messages name, and `Value.isTruthy`, what counts as true;
* `Value.member?`, the member of an object: among members of one name the first one counts, and the
  others are never seen.
-/

namespace Criteria

/-- The identity of an array or an object: it says which of the values with some content is meant.
Values that are given in two places are one and the same if they agree in identity and content. -/
abbrev Identity := Nat

/-- A value. The members of an object are looked up by name; their order has no meaning. -/
inductive Value
  | undefined
  | null
  | bool (b : Bool)
  | number (n : Number)
  | str (text : Text)
  | array (identity : Identity) (items : List Value)
  | object (identity : Identity) (members : List (Text × Value))
  deriving Inhabited

/-- The members of an object. -/
abbrev Members := List (Text × Value)

/-- The kinds of values. -/
inductive Kind
  | undefined
  | null
  | boolean
  | number
  | string
  | array
  | object
  deriving DecidableEq

/-- The name of a kind in messages. -/
def Kind.name : Kind → String
  | .undefined => "undefined"
  | .null => "null"
  | .boolean => "boolean"
  | .number => "number"
  | .string => "string"
  | .array => "array"
  | .object => "object"

namespace Members

/-- The value that a name has: that of its first member. -/
def get? (members : Members) (name : Text) : Option Value := members.lookup name

/-- Whether a name has a value. -/
def has (members : Members) (name : Text) : Bool := members.any (·.1 == name)

/-- The values that names have, without those of later members of a name. -/
def values (seen : List Text) : Members → List Value
  | [] => []
  | (name, value) :: rest =>
    if seen.contains name then values seen rest else value :: values (name :: seen) rest

end Members

namespace Value

/-- The kind of a value. -/
def kind : Value → Kind
  | .undefined => .undefined
  | .null => .null
  | .bool _ => .boolean
  | .number _ => .number
  | .str _ => .string
  | .array .. => .array
  | .object .. => .object

/-- Whether a value is `undefined` or `null`. -/
def isNullish : Value → Bool
  | .undefined | .null => true
  | _ => false

/-- Whether a value is a number; truth values are none. -/
def isNumber : Value → Bool
  | .number _ => true
  | _ => false

/-- What counts as true: all but the empty values, `false`, zero, not a number, the empty text. -/
def isTruthy : Value → Bool
  | .undefined | .null => false
  | .bool b => b
  | .number n => !n.isZero && !n.isNaN
  | .str text => !text.isEmpty
  | .array .. | .object .. => true

/-- An integer as a value. -/
def int (n : Int) : Value := .number (.int n)

/-- A string as a value. -/
def ofString (s : String) : Value := .str (Text.ofString s)

end Value

end Criteria
