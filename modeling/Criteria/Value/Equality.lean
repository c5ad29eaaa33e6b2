import Criteria.Value.Basic

/-!
# Equality of values

`Value.isIdentical` says whether two values are one and the same, `Value.equal` whether they are equal.

Values of different kinds are never equal. Numbers are compared by exact value, whether integers or
doubles, and not a number equals nothing. One and the same array or object is equal to itself,
whatever it holds; otherwise arrays are compared item by item, and objects are equal if they have the
same names and equal values under each of them.
-/

namespace Criteria.Value

mutual

/-- Whether two values are one and the same, identities included. -/
def isIdentical : Value → Value → Bool
  | .undefined, .undefined => true
  | .null, .null => true
  | .bool a, .bool b => a == b
  | .number a, .number b => a == b
  | .str s, .str t => s == t
  | .array i xs, .array j ys => i == j && isIdenticalItems xs ys
  | .object i ms, .object j ns => i == j && isIdenticalMembers ms ns
  | _, _ => false

/-- Whether items are the same, one after the other. -/
def isIdenticalItems : List Value → List Value → Bool
  | [], [] => true
  | x :: xs, y :: ys => isIdentical x y && isIdenticalItems xs ys
  | _, _ => false

/-- Whether members are the same, one after the other. -/
def isIdenticalMembers : List (Text × Value) → List (Text × Value) → Bool
  | [], [] => true
  | (name, value) :: ms, (other, value') :: ns =>
    name == other && isIdentical value value' && isIdenticalMembers ms ns
  | _, _ => false

end

mutual

/-- Whether two values are equal. -/
def equal : Value → Value → Bool
  | .undefined, .undefined => true
  | .null, .null => true
  | .bool a, .bool b => a == b
  | .number a, .number b => a.equal b
  | .str s, .str t => s == t
  | .array i xs, .array j ys => isIdentical (.array i xs) (.array j ys) || equalItems xs ys
  | .object i ms, .object j ns =>
    isIdentical (.object i ms) (.object j ns) ||
      ns.all (fun n => Members.has ms n.1) && equalMembers [] ms ns
  | _, _ => false

/-- Whether two lists of items have the same length and equal items in each place. -/
def equalItems : List Value → List Value → Bool
  | [], [] => true
  | x :: xs, y :: ys => equal x y && equalItems xs ys
  | _, _ => false

/-- Whether every name that was not seen before has an equal value on the other side. -/
def equalMembers (seen : List Text) : List (Text × Value) → Members → Bool
  | [], _ => true
  | (name, value) :: rest, others =>
    (seen.contains name ||
      match others.get? name with
      | some other => equal value other
      | none => false) &&
    equalMembers (name :: seen) rest others

end

end Criteria.Value
