import Criteria.Fault

/-!
# Diagnostics

What is told about an expression that cannot be used: a message, and what it belongs to.

* `Diagnostic.message` is the wording; where an integer in it has too many digits to be written, the
  words that say so stand instead;
* `Diagnostic.context` adds the expression with a mark under the position where both are known;
* `Fault.diagnostic?` is the diagnostic of a fault. A numeral that is too long, an unknown symbol, a
  parenthesis without a record and a missing value have none: they are no faults of the expression
  language.
-/

namespace Criteria

/-- What is told about an expression. -/
inductive Diagnostic
  /-- A message, with a position in an expression. -/
  | remark (message : String) (position : Option Int) (expression : Option String)
  /-- Parentheses without a partner, by the indexes of their tokens. -/
  | unbalanced (indexes : List Int) (expression : Option String)
  /-- An evaluation that failed. -/
  | failed (message : String) (expression operator : Option String) (tokenIndex : Option Int)
  /-- A quantity above its limit. -/
  | limitExceeded (name : String) (limit actual : Int)
  /-- A document of prepared conditions that cannot be used. -/
  | document (message : String) (path : Option String)
  deriving DecidableEq

namespace Diagnostic

/-- The wording of a diagnostic. -/
def message : Diagnostic → String
  | .remark message _ _ => message
  | .unbalanced indexes _ =>
    match indexes.mapM Numeral.write? with
    | some written =>
      "Parens with the following token indexes are unbalanced: " ++ String.intercalate "," written
    | none => Numeral.writtenTooLongMessage
  | .failed message _ _ _ => message
  | .limitExceeded name limit actual =>
    match Numeral.write? limit, Numeral.write? actual with
    | some limit, some actual => s!"Limit exceeded: {name} (limit: {limit}, actual: {actual})"
    | _, _ => Numeral.writtenTooLongMessage
  | .document message _ => message

/-- The position that a diagnostic points at. -/
def position? : Diagnostic → Option Int
  | .remark _ position _ => position
  | _ => none

/-- The expression that a diagnostic is about. -/
def expression? : Diagnostic → Option String
  | .remark _ _ expression => expression
  | .unbalanced _ expression => expression
  | .failed _ expression _ _ => expression
  | _ => none

/-- The message, followed by the expression and a mark under the position if both are known. -/
def context (d : Diagnostic) : String :=
  match d.expression?, d.position? with
  | some expression, some position =>
    d.message ++ "\n  " ++ expression ++ "\n  " ++
      String.ofList (List.replicate position.toNat ' ') ++ "^"
  | _, _ => d.message

end Diagnostic

/-- The diagnostic of a fault of the expression language. -/
def Fault.diagnostic? : Fault → Option Diagnostic
  | .unbalanced indexes expression => some (.unbalanced indexes (some expression))
  | .failed failure =>
    some (.failed failure.cause.message failure.expression failure.operator failure.tokenIndex)
  | .limitExceeded quantity limit actual => some (.limitExceeded quantity.name limit actual)
  | .numeralTooLong _ => none
  | .unknownSymbol _ => none
  | .notRecorded _ => none
  | .emptyStack => none

end Criteria
