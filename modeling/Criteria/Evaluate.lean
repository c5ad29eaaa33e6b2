import Criteria.Diagnostic
import Criteria.Machine

/-!
# Evaluating expressions

* `evaluate` gives the value of an expression, or the fault that it ends with;
* `evaluateAsBoolean` and `tryEvaluate` turn faults of the expression into messages; a fault that
  has no diagnostic is handed on.

How deeply JSON text may be nested to be read by `contains` is a parameter. Expressions are texts of
characters only: lone surrogates stand in data, as parts of a `Text`, but not in an expression.
-/

namespace Criteria

/-- The value of an expression against data. -/
def evaluate (nesting : Nat) (limits : Limits) (data : Value) (expression : String) :
    Except Fault Value := do
  let tokens ← tokenize limits expression
  evaluateTokens ⟨nesting, data, limits, expression⟩ tokens

/-- A value, or the message for a fault that has a diagnostic; other faults are handed on. -/
def withMessage (outcome : Except Fault Value) : Except Fault (Except String Value) :=
  match outcome with
  | .ok value => .ok (.ok value)
  | .error fault =>
    match fault.diagnostic? with
    | some diagnostic => .ok (.error diagnostic.message)
    | none => .error fault

/-- The value of an expression, or the message that tells why there is none. -/
def tryEvaluate (nesting : Nat) (limits : Limits) (data : Value) (expression : String) :
    Except Fault (Except String Value) :=
  withMessage (evaluate nesting limits data expression)

/-- Whether an expression counts as true, with a message if it has no value; such an expression
counts as false. -/
def evaluateAsBoolean (nesting : Nat) (limits : Limits) (data : Value) (expression : String) :
    Except Fault (Bool × Option String) :=
  (tryEvaluate nesting limits data expression).map fun
    | .ok value => (value.isTruthy, none)
    | .error message => (false, some message)

end Criteria
