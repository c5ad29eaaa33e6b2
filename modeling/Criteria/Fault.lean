import Criteria.Value.Basic
import Criteria.Text.Numeral

/-!
# Faults of an evaluation

Why an evaluation fails, as causes; the wording stands in `Cause.message` and in the diagnostics
that are made of faults.

* `Cause`: what was wrong with operands, or with what was left at the end;
* `Failure`: a cause with the operator, the token and the expression that it belongs to;
* `Fault`: a failure, unbalanced parentheses, a limit, a numeral that is too long, a symbol that has
  no price or no operation, an opening parenthesis without a record, or a missing value.
-/

namespace Criteria

/-- What is wrong with operands or with the outcome. -/
inductive Cause
  /-- An arithmetic operation on operands that are not numbers. -/
  | cannotCombine (verb : String) (left right : Kind)
  /-- An integer beyond the range of doubles beside a double. -/
  | outOfRange (verb : String)
  /-- An ordering of kinds that have no common order. -/
  | cannotCompare (left right : Kind) (symbol : String)
  /-- A left side that holds no elements. -/
  | notACollection (symbol : String) (kind : Kind)
  /-- An operation with a wrong number of operands. -/
  | operandCount (symbol : String) (arity given : Nat)
  /-- An operator without enough values before it. -/
  | operandsMissing (symbol : String) (arity found : Nat)
  /-- An expression that leaves no value or several. -/
  | notOneValue (count : Nat)
  deriving DecidableEq

/-- The words for a cause. -/
def Cause.message : Cause → String
  | .cannotCombine verb left right => s!"Cannot {verb} {left.name} and {right.name}"
  | .outOfRange verb => s!"Cannot {verb}: result out of range"
  | .cannotCompare left right symbol =>
    s!"Cannot compare {left.name} and {right.name} with {symbol}"
  | .notACollection symbol kind =>
    s!"{symbol} expects an array, object or string, got {kind.name}"
  | .operandCount symbol arity given =>
    s!"Operator '{symbol}' expects {arity} operand(s), got {given}"
  | .operandsMissing symbol arity found =>
    s!"Operator '{symbol}' expects {arity} operand(s), found {found}"
  | .notOneValue count => s!"Expression must reduce to exactly one value, got {count}"

/-- A cause with the place that it belongs to, as far as the place is known. -/
structure Failure where
  cause : Cause
  operator : Option String
  tokenIndex : Option Int
  expression : Option String
  deriving DecidableEq

/-- The quantities that are limited. -/
inductive LimitedQuantity
  | expressionLength
  | tokens
  | pathDepth
  deriving DecidableEq

/-- The name of a limited quantity in messages. -/
def LimitedQuantity.name : LimitedQuantity → String
  | .expressionLength => "max_expression_length"
  | .tokens => "max_tokens"
  | .pathDepth => "max_path_depth"

/-- Why an evaluation fails. -/
inductive Fault
  /-- Parentheses without a partner, by the indexes of their tokens. -/
  | unbalanced (indexes : List Int) (expression : String)
  /-- An operation that failed, or an outcome that is not one value. -/
  | failed (failure : Failure)
  /-- A quantity above its limit. -/
  | limitExceeded (quantity : LimitedQuantity) (limit actual : Int)
  /-- A numeral with too many digits. -/
  | numeralTooLong (numeral : Numeral.TooLong)
  /-- A symbol without a price or an operation. -/
  | unknownSymbol (symbol : String)
  /-- A pending opening parenthesis that is not among those without a partner. -/
  | notRecorded (index : Int)
  /-- A value that is taken where there is none. -/
  | emptyStack
  deriving DecidableEq

end Criteria
