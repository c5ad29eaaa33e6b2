import Criteria.Fault

/-!
# Operators

* `Operator`: negation, and the operators between two operands; each has a symbol, an arity and a
  precedence;
* `Operator.all` lists every operator once, and `Operator.ofSymbol?` finds the operator of a symbol;
* `price?` is the precedence of a symbol. Parentheses and the reserved symbol `^` have a price, but
  are no operators;
* `hasPrecedence` says whether an operator that is waiting is applied before the next one comes in.
-/

namespace Criteria

/-- The operators between two operands. -/
inductive BinaryOperator
  | add
  | subtract
  | multiply
  | divide
  | equal
  | notEqual
  | and
  | or
  | greater
  | less
  | contains
  | hasLength
  deriving DecidableEq

/-- The operators: negation, and those between two operands. -/
inductive Operator
  | not
  | binary (operator : BinaryOperator)
  deriving DecidableEq

namespace BinaryOperator

/-- The symbol of an operator between two operands. -/
def symbol : BinaryOperator → String
  | .add => "+"
  | .subtract => "-"
  | .multiply => "*"
  | .divide => "/"
  | .equal => "=="
  | .notEqual => "!="
  | .and => "&&"
  | .or => "||"
  | .greater => ">"
  | .less => "<"
  | .contains => "contains"
  | .hasLength => "hasLength"

/-- How strongly an operator binds its two operands. -/
def precedence : BinaryOperator → Nat
  | .and | .or => 1
  | .equal | .notEqual => 2
  | .greater | .less | .contains | .hasLength => 3
  | .add | .subtract => 4
  | .multiply | .divide => 5

/-- The operators between two operands. -/
def all : List BinaryOperator :=
  [.add, .subtract, .multiply, .divide, .equal, .notEqual, .and, .or, .greater, .less, .contains,
   .hasLength]

end BinaryOperator

namespace Operator

/-- The symbol of an operator. -/
def symbol : Operator → String
  | .not => "!"
  | .binary operator => operator.symbol

/-- The number of operands of an operator. -/
def arity : Operator → Nat
  | .not => 1
  | .binary _ => 2

/-- How strongly an operator binds. -/
def precedence : Operator → Nat
  | .not => 7
  | .binary operator => operator.precedence

/-- The operators. -/
def all : List Operator := BinaryOperator.all.map .binary ++ [.not]

/-- The operator of a symbol. -/
def ofSymbol? (s : String) : Option Operator := all.find? (·.symbol == s)

theorem mem_all (operator : Operator) : operator ∈ all := by
  cases operator with
  | not => decide
  | binary operator => cases operator <;> decide

/-- An operator is found by its symbol. -/
theorem ofSymbol?_symbol (operator : Operator) : ofSymbol? operator.symbol = some operator := by
  cases operator with
  | not => decide
  | binary operator => cases operator <;> decide

/-- The operator that a symbol finds has that symbol. -/
theorem symbol_of_ofSymbol? {s : String} {operator : Operator} (h : ofSymbol? s = some operator) :
    operator.symbol = s := by
  simpa using List.find?_some h

end Operator

/-! ### Prices -/

/-- The price of a parenthesis. -/
def parenthesisPrice : Nat := 8

/-- The symbols that have a price, with their prices. -/
def prices : List (String × Nat) :=
  [("(", parenthesisPrice), (")", parenthesisPrice), ("^", 6)] ++
    Operator.all.map fun operator => (operator.symbol, operator.precedence)

/-- The price of a symbol. -/
def price? (symbol : String) : Option Nat := prices.lookup symbol

/-- The price of a symbol that has to have one. -/
def price (symbol : String) : Except Fault Nat :=
  match price? symbol with
  | some n => .ok n
  | none => .error (.unknownSymbol symbol)

/-- Whether a waiting symbol is applied before the next one comes in: if it binds at least as
strongly. A waiting parenthesis is a barrier. -/
def hasPrecedence (next waiting : String) : Except Fault Bool :=
  if waiting = "(" ∨ waiting = ")" then .ok false
  else do
    let waitingPrice ← price waiting
    let nextPrice ← price next
    return decide (nextPrice ≤ waitingPrice)

theorem price_symbol (operator : Operator) : price operator.symbol = .ok operator.precedence := by
  cases operator with
  | not => rfl
  | binary operator => cases operator <;> rfl

theorem symbol_ne_parenthesis (operator : Operator) :
    ¬ (operator.symbol = "(" ∨ operator.symbol = ")") := by
  cases operator with
  | not => decide
  | binary operator => cases operator <;> decide

/-- Between operators precedence is a comparison of numbers. -/
theorem hasPrecedence_symbol (next waiting : Operator) :
    hasPrecedence next.symbol waiting.symbol =
      .ok (decide (next.precedence ≤ waiting.precedence)) := by
  rw [hasPrecedence, if_neg (symbol_ne_parenthesis waiting), price_symbol, price_symbol]
  rfl

/-- A waiting opening parenthesis is a barrier for every symbol. -/
theorem hasPrecedence_opening (next : String) : hasPrecedence next "(" = .ok false := rfl

end Criteria
