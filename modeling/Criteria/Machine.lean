import Criteria.Operator.Apply
import Criteria.Token.Basic

/-!
# The machine that evaluates tokens

The machine keeps two stacks, of values and of what is pending, and the indexes of the parentheses
that have no partner yet. It takes one token after the other.

* An opening parenthesis becomes pending; a closing one applies what is pending back to the nearest
  opening parenthesis, and both are then balanced.
* An operator first applies what is pending and has precedence over it, then becomes pending itself.
* A literal pushes its value, a path the value it leads to.
* At the end everything pending is applied, and exactly one value has to be left.

Stacks are lists whose head is the top.
-/

namespace Criteria

/-- An operator or an opening parenthesis that waits, with its symbol and its place. -/
structure Pending where
  symbol : String
  index : Int
  isOpening : Bool
  deriving DecidableEq

/-- An operator that waits at a place. -/
def Operator.waiting (operator : Operator) (index : Int) : Pending :=
  ⟨operator.symbol, index, false⟩

/-- What an expression is evaluated in: how deeply JSON text may be nested to be read, the data that
paths lead into, the limits, its text. -/
structure Scope where
  nesting : Nat
  data : Value
  limits : Limits
  expression : String

/-- The state of the machine. -/
structure Machine where
  values : List Value
  pending : List Pending
  unbalanced : List Int

namespace Machine

/-- The machine before the first token. -/
def start : Machine := ⟨[], [], []⟩

/-- A failure of a pending operator. -/
def failAt (scope : Scope) (top : Pending) (cause : Cause) : Fault :=
  .failed ⟨cause, some top.symbol, some top.index, some scope.expression⟩

/-- Take the value on top; there has to be one. -/
def popValue : List Value → Except Fault (Value × List Value)
  | [] => .error .emptyStack
  | value :: rest => .ok (value, rest)

/-- Take one operand from the values, or two of them in the order in which they were pushed. -/
def popOperands (arity : Nat) (values : List Value) : Except Fault (List Value × List Value) := do
  let (b, rest) ← popValue values
  if arity = 1 then return ([b], rest)
  else
    let (a, rest) ← popValue rest
    return ([a, b], rest)

/-- The values after an operator has been applied to the topmost ones. -/
def applyPending (scope : Scope) (top : Pending) (values : List Value) :
    Except Fault (List Value) :=
  match Operator.ofSymbol? top.symbol with
  | none => .error (.unknownSymbol top.symbol)
  | some operator =>
    if values.length < operator.arity then
      .error (failAt scope top (.operandsMissing operator.symbol operator.arity values.length))
    else do
      let (operands, rest) ← popOperands operator.arity values
      let result ← (operator.apply scope.nesting operands).mapError (failAt scope top)
      return result :: rest

/-- A registered operator is found when it is applied. -/
theorem applyPending_waiting (scope : Scope) (operator : Operator) (index : Int)
    (values : List Value) :
    applyPending scope (operator.waiting index) values =
      if values.length < operator.arity then
        .error (failAt scope (operator.waiting index)
          (.operandsMissing operator.symbol operator.arity values.length))
      else
        popOperands operator.arity values >>= fun taken =>
          (operator.apply scope.nesting taken.1).mapError
              (failAt scope (operator.waiting index)) >>=
            fun result => .ok (result :: taken.2) := by
  rw [applyPending, show (operator.waiting index).symbol = operator.symbol from rfl,
    Operator.ofSymbol?_symbol]
  rfl

/-- Apply what is pending from the top down, as long as a test holds. -/
def drainWhile (scope : Scope) (test : Pending → Except Fault Bool) (unbalanced : List Int)
    (values : List Value) : List Pending → Except Fault Machine
  | [] => .ok ⟨values, [], unbalanced⟩
  | top :: rest => do
    if ← test top then
      drainWhile scope test unbalanced (← applyPending scope top values) rest
    else return ⟨values, top :: rest, unbalanced⟩

/-- The machine after what is pending has been applied as long as a test holds. -/
def drain (scope : Scope) (test : Pending → Except Fault Bool) (machine : Machine) :
    Except Fault Machine :=
  drainWhile scope test machine.unbalanced machine.values machine.pending

section Drain

variable {scope : Scope} {test : Pending → Except Fault Bool} {values : List Value} {top : Pending}
  {rest : List Pending} {unbalanced : List Int}

@[simp] theorem drain_nil :
    drain scope test ⟨values, [], unbalanced⟩ = .ok ⟨values, [], unbalanced⟩ := rfl

theorem drain_cons :
    drain scope test ⟨values, top :: rest, unbalanced⟩ =
      test top >>= fun passes =>
        if passes then
          applyPending scope top values >>= fun applied =>
            drain scope test ⟨applied, rest, unbalanced⟩
        else .ok ⟨values, top :: rest, unbalanced⟩ := rfl

theorem drain_of_true (h : test top = .ok true) :
    drain scope test ⟨values, top :: rest, unbalanced⟩ =
      applyPending scope top values >>= fun applied =>
        drain scope test ⟨applied, rest, unbalanced⟩ := by
  rw [drain_cons, h]
  rfl

theorem drain_of_false (h : test top = .ok false) :
    drain scope test ⟨values, top :: rest, unbalanced⟩ =
      .ok ⟨values, top :: rest, unbalanced⟩ := by
  rw [drain_cons, h]
  rfl

end Drain

/-- The test that holds down to the nearest opening parenthesis. -/
def toOpening (top : Pending) : Except Fault Bool := .ok !top.isOpening

/-- The test that holds for what has precedence over a symbol. -/
def before (symbol : String) (top : Pending) : Except Fault Bool := hasPrecedence symbol top.symbol

/-- The test that always holds. -/
def toEnd (_ : Pending) : Except Fault Bool := .ok true

/-- Put on top of what is pending. -/
def push (machine : Machine) (top : Pending) : Machine :=
  { machine with pending := top :: machine.pending }

/-- Put a value on top. -/
def pushValue (machine : Machine) (value : Value) : Machine :=
  { machine with values := value :: machine.values }

/-- The machine with an index among those that have no partner. -/
def record (machine : Machine) (index : Int) : Machine :=
  { machine with unbalanced := machine.unbalanced ++ [index] }

/-- Remove the first record of an index; it has to be there. -/
def strike (index : Int) (recorded : List Int) : Except Fault (List Int) :=
  if index ∈ recorded then .ok (recorded.erase index) else .error (.notRecorded index)

/-- Pair a closing parenthesis with the opening one on top; without one it has no partner. -/
def close (machine : Machine) (index : Int) : Except Fault Machine :=
  match machine.pending with
  | [] => .ok (machine.record index)
  | opening :: rest => do
    let unbalanced ← strike opening.index machine.unbalanced
    return { machine with pending := rest, unbalanced := unbalanced }

/-- Take a token. -/
def step (scope : Scope) (machine : Machine) (token : Token) : Except Fault Machine :=
  match token.item with
  | .opening symbol => .ok ((machine.push ⟨symbol, token.index, true⟩).record token.index)
  | .closing => do (← machine.drain scope toOpening).close token.index
  | .operator symbol => do
    return (← machine.drain scope (before symbol)).push ⟨symbol, token.index, false⟩
  | .literal value => .ok (machine.pushValue value)
  | .path path => do
    return machine.pushValue
      (← scope.data.resolve path.toList (some scope.limits.maxPathDepth))

/-- Take tokens one after the other. -/
def run (scope : Scope) (machine : Machine) : List Token → Except Fault Machine
  | [] => .ok machine
  | token :: tokens => do run scope (← step scope machine token) tokens

@[simp] theorem run_nil (scope : Scope) (machine : Machine) :
    run scope machine [] = .ok machine := rfl

theorem run_cons (scope : Scope) (machine : Machine) (token : Token) (tokens : List Token) :
    run scope machine (token :: tokens) =
      step scope machine token >>= fun next => run scope next tokens := rfl

/-- Taking tokens in two parts is taking the second part where the first one ends. -/
theorem run_append (scope : Scope) (machine : Machine) (front back : List Token) :
    run scope machine (front ++ back) =
      run scope machine front >>= fun next => run scope next back := by
  induction front generalizing machine with
  | nil => rfl
  | cons token front ih =>
    rw [List.cons_append, run_cons, run_cons]
    cases step scope machine token with
    | error fault => rfl
    | ok next => exact ih next

/-- The only value that is left. -/
def onlyValue (scope : Scope) : List Value → Except Fault Value
  | [value] => .ok value
  | values => .error (.failed ⟨.notOneValue values.length, none, none, some scope.expression⟩)

/-- The value that the machine ends with. -/
def finish (scope : Scope) (machine : Machine) : Except Fault Value :=
  if machine.unbalanced.isEmpty then do
    onlyValue scope (← machine.drain scope toEnd).values
  else .error (.unbalanced machine.unbalanced scope.expression)

end Machine

/-- The value of a sequence of tokens. -/
def evaluateTokens (scope : Scope) (tokens : List Token) : Except Fault Value := do
  (← Machine.start.run scope tokens).finish scope

end Criteria
