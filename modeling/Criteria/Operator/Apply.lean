import Criteria.Json.Reader
import Criteria.Operator.Basic
import Criteria.Text.Occurrence
import Criteria.Value.Match
import Criteria.Value.Path

/-!
# What operators do

* Arithmetic takes numbers, and `+` takes two texts as well.
* An ordering with an empty side is false; otherwise it takes two numbers or two texts.
* `&&` and `||` give one of their operands.
* `contains` takes a collection and a sample. A sample that is the JSON text of an object is a
  pattern, which some element has to meet; for any other sample some element has to be equal to it,
  and in a text it has to occur. A text in which arrays and objects are nested more deeply than
  `nesting` is not read as JSON.
* `hasLength` compares the size of a collection; an object has the size that its member `length`
  says.
-/

namespace Criteria

namespace Value

/-- Combine two numbers. -/
def arithmetic (verb : String) (combine : Number → Number → Option Number) (a b : Value) :
    Except Cause Value :=
  match a, b with
  | .number m, .number n =>
    match combine m n with
    | some result => .ok (.number result)
    | none => .error (.outOfRange verb)
  | a, b => .error (.cannotCombine verb a.kind b.kind)

/-- The sum of two numbers, or two texts one after the other. -/
def add : Value → Value → Except Cause Value
  | .str s, .str t => .ok (.str (s ++ t))
  | a, b => arithmetic "add" Number.add? a b

/-- The difference. -/
def subtract : Value → Value → Except Cause Value := arithmetic "subtract" Number.sub?

/-- The product. -/
def multiply : Value → Value → Except Cause Value := arithmetic "multiply" Number.mul?

/-- The quotient. -/
def divide : Value → Value → Except Cause Value :=
  arithmetic "divide" fun m n => some (.double (m.div n))

/-- Compare two values by an order of numbers and an order of texts; the symbol is for messages. -/
def ordering (symbol : String) (ofNumbers : Number → Number → Bool) (ofTexts : Text → Text → Bool)
    (a b : Value) : Except Cause Value :=
  if a.isNullish || b.isNullish then .ok (.bool false)
  else
    match a, b with
    | .number m, .number n => .ok (.bool (ofNumbers m n))
    | .str s, .str t => .ok (.bool (ofTexts s t))
    | a, b => .error (.cannotCompare a.kind b.kind symbol)

/-- Whether the first value is less. -/
def less : Value → Value → Except Cause Value := ordering "<" Number.less Text.precedes

/-- Whether the first value is greater. -/
def greater : Value → Value → Except Cause Value :=
  ordering ">" (fun m n => n.less m) (fun s t => Text.precedes t s)

/-- The second operand if the first one counts as true, else the first one. -/
def and (a b : Value) : Value := if a.isTruthy then b else a

/-- The first operand if it counts as true, else the second one. -/
def or (a b : Value) : Value := if a.isTruthy then a else b

/-- Whether a value does not count as true. -/
def not (a : Value) : Value := .bool !a.isTruthy

/-- The elements of a collection: none in an empty value, the values of an object, the items of an
array, the code points of a text. -/
def elements? : Value → Option (List Value)
  | .undefined | .null => some []
  | .object _ members => some (Members.values [] members)
  | .array _ items => some items
  | .str text => some (text.map fun p => .str [p])
  | .bool _ | .number _ => none

/-- The pattern that a sample is the JSON text of. -/
def pattern? (nesting : Nat) : Value → Option Members
  | .str text =>
    match Json.read nesting text with
    | .ok (.object _ members) => some members
    | _ => none
  | _ => none

/-- Whether some element meets a sample: the pattern that it is the text of, if there is one, else
equality, or occurrence in a text. The empty pattern is met by every element. -/
def holds (nesting : Nat) (collection : Value) (elements : List Value) (sample : Value) : Bool :=
  match sample.pattern? nesting with
  | some [] => !elements.isEmpty
  | some members => elements.any fun element => element.isMatch (.object 0 members)
  | none =>
    match collection, sample with
    | .str whole, .str part => Text.occursIn part whole
    | .str _, _ => false
    | _, sample => elements.any fun element => element.equal sample

/-- Whether a collection contains a sample. -/
def contains (nesting : Nat) (collection sample : Value) : Except Cause Value :=
  match collection.elements? with
  | some elements => .ok (.bool (collection.holds nesting elements sample))
  | none => .error (.notACollection "contains" collection.kind)

/-- The size of a collection as a value: an object has what its member `length` says. -/
def size? : Value → Option Value
  | .undefined | .null => some (.int 0)
  | .object _ members => Members.get? members (Text.ofChars Path.lengthSegment)
  | .array _ items => some (.int items.length)
  | .str text => some (.int text.length)
  | .bool _ | .number _ => none

/-- Whether a collection has a size that is equal to a number. -/
def hasLength (collection expected : Value) : Value :=
  match collection.size?, expected with
  | some (.number m), .number n => .bool (m.equal n)
  | _, _ => .bool false

end Value

/-- Apply an operator between two operands. -/
def BinaryOperator.apply (nesting : Nat) : BinaryOperator → Value → Value → Except Cause Value
  | .add, a, b => a.add b
  | .subtract, a, b => a.subtract b
  | .multiply, a, b => a.multiply b
  | .divide, a, b => a.divide b
  | .equal, a, b => .ok (.bool (a.equal b))
  | .notEqual, a, b => .ok (.bool !a.equal b)
  | .and, a, b => .ok (a.and b)
  | .or, a, b => .ok (a.or b)
  | .greater, a, b => a.greater b
  | .less, a, b => a.less b
  | .contains, a, b => a.contains nesting b
  | .hasLength, a, b => .ok (a.hasLength b)

/-- Apply an operator to a list of operands. -/
def Operator.apply (nesting : Nat) (operator : Operator) (operands : List Value) :
    Except Cause Value :=
  match operator, operands with
  | .not, [a] => .ok a.not
  | .binary op, [a, b] => op.apply nesting a b
  | operator, operands =>
    .error (.operandCount operator.symbol operator.arity operands.length)

/-- Apply the operator of a symbol to a list of operands. -/
def applySymbol (nesting : Nat) (symbol : String) (operands : List Value) : Except Fault Value :=
  match Operator.ofSymbol? symbol with
  | none => .error (.unknownSymbol symbol)
  | some operator =>
    (operator.apply nesting operands).mapError fun cause => .failed ⟨cause, some symbol, none, none⟩

/-- The symbol of an operator between two operands applies that operator. -/
theorem applySymbol_symbol (nesting : Nat) (operator : BinaryOperator) (a b : Value) :
    applySymbol nesting operator.symbol [a, b] =
      (operator.apply nesting a b).mapError fun cause =>
        .failed ⟨cause, some operator.symbol, none, none⟩ := by
  have hsymbol : Operator.ofSymbol? operator.symbol = some (.binary operator) :=
    Operator.ofSymbol?_symbol (.binary operator)
  rw [applySymbol, hsymbol]
  rfl

theorem applySymbol_symbol_eq_ok_iff {nesting : Nat} {operator : BinaryOperator}
    {a b value : Value} :
    applySymbol nesting operator.symbol [a, b] = .ok value ↔
      operator.apply nesting a b = .ok value := by
  rw [applySymbol_symbol]
  cases operator.apply nesting a b with
  | error cause => exact iff_of_false (fun h => nomatch h) fun h => nomatch h
  | ok found =>
    constructor
    · rintro ⟨⟩
      rfl
    · rintro ⟨⟩
      rfl

theorem applySymbol_symbol_congr {nesting : Nat} {operator : BinaryOperator} {a b c d : Value}
    (h : operator.apply nesting a b = operator.apply nesting c d) :
    applySymbol nesting operator.symbol [a, b] = applySymbol nesting operator.symbol [c, d] := by
  rw [applySymbol_symbol, applySymbol_symbol, h]

end Criteria
