import Criteria.Value.Equality

/-!
# Partial deep match

A pattern asks for less than equality does. A pattern that is an object is met by every object that
has a matching value under each name of the pattern; a pattern that is an array is met by every
array in which each item of the pattern is met by some item; any other pattern is met by the values
equal to it. Identities are not looked at: what counts is what arrays and objects hold.
-/

namespace Criteria.Value

mutual

/-- Whether a value meets a pattern. -/
def isMatch : Value → Value → Bool
  | .object _ members, .object _ patterns => meetsMembers members [] patterns
  | _, .object .. => false
  | .array _ items, .array _ patterns => meetsItems items patterns
  | _, .array .. => false
  | value, pattern => value.equal pattern

/-- Whether each pattern of a list is met by some item. -/
def meetsItems (items : List Value) : List Value → Bool
  | [] => true
  | pattern :: patterns =>
    items.any (fun item => isMatch item pattern) && meetsItems items patterns

/-- Whether each name of a pattern that was not seen before has a value that meets its pattern. -/
def meetsMembers (members : Members) (seen : List Text) : List (Text × Value) → Bool
  | [] => true
  | (name, pattern) :: patterns =>
    (seen.contains name ||
      match members.get? name with
      | some value => isMatch value pattern
      | none => false) &&
    meetsMembers members (name :: seen) patterns

end

end Criteria.Value
