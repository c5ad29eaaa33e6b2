import Mathlib.Logic.Function.Iterate
import Criteria.Machine

/-!
# Expressions as trees

The infix language, with its trees, the tokens of a tree, and what a tree stands for.

* `Expression level`: the expressions in which every operator outside parentheses binds at least as
  strongly as `level`. A left operand binds at least as strongly as its operator, a right operand
  and the operand of `!` more strongly; whatever binds less has to be a group. So a tree that would
  need further parentheses cannot be built;
* `Expression.tokens`: the tokens of a tree, at consecutive places;
* `Expression.evaluate`: what a tree stands for, operands first, from left to right;
* `Expression.effect`: what reading a tree does to a stack of values. Only a run of marks `!` makes a
  difference: all but the last one are applied before their operand is read.
-/

namespace Criteria

/-- What gives a value by itself: a literal, or a path into the data. -/
inductive Operand
  | literal (value : Value)
  | path (path : String)

namespace Operand

/-- What the token of an operand stands for. -/
def item : Operand → Token.Item
  | .literal value => .literal value
  | .path text => .path text

/-- The value of an operand. -/
def value (scope : Scope) : Operand → Except Fault Value
  | .literal value => .ok value
  | .path text => scope.data.resolve text.toList (some scope.limits.maxPathDepth)

end Operand

/-- The token of an operator at a place. -/
def Operator.token (operator : Operator) (index : Int) : Token :=
  ⟨.operator operator.symbol, operator.symbol, index⟩

/-- The expressions in which every operator outside parentheses binds at least as strongly as a
level. A negation has one mark and `more` of them in front of it. -/
inductive Expression : Nat → Type
  | operand {level : Nat} (operand : Operand) (text : String) : Expression level
  | group {level : Nat} (body : Expression 0) : Expression level
  | negation {level : Nat} (more : Nat) (body : Expression (Operator.not.precedence + 1))
      (binds : level ≤ Operator.not.precedence) : Expression level
  | binary {level : Nat} (operator : BinaryOperator) (left : Expression operator.precedence)
      (right : Expression (operator.precedence + 1)) (binds : level ≤ operator.precedence) :
      Expression level

/-- A run of marks `!` that begins at a place. -/
def marks (start : Nat) : Nat → List Token
  | 0 => []
  | count + 1 => Operator.not.token start :: marks (start + 1) count

/-- Apply as many waiting marks `!` as given; the first one stands at a place. -/
def applyMarks (scope : Scope) (start : Nat) : Nat → List Value → Except Fault (List Value)
  | 0, values => .ok values
  | count + 1, values => do
    let negated ← Machine.applyPending scope (Operator.not.waiting start) values
    applyMarks scope (start + 1) count negated

namespace Expression

variable {level : Nat}

/-- The number of tokens of an expression. -/
def width {level : Nat} : Expression level → Nat
  | .operand _ _ => 1
  | .group body => body.width + 2
  | .negation more body _ => more + 1 + body.width
  | .binary _ left right _ => left.width + 1 + right.width

/-- The tokens of an expression that begins at a place. -/
def tokens {level : Nat} (start : Nat) : Expression level → List Token
  | .operand leaf text => [⟨leaf.item, text, start⟩]
  | .group body =>
    ⟨.opening "(", "(", start⟩ ::
      (body.tokens (start + 1) ++ [⟨.closing, ")", ↑(start + 1 + body.width)⟩])
  | .negation more body _ => marks start (more + 1) ++ body.tokens (start + more + 1)
  | .binary operator left right _ =>
    left.tokens start ++
      (Operator.binary operator).token ↑(start + left.width) ::
        right.tokens (start + left.width + 1)

/-- What an expression that begins at a place stands for: the left operand, then the right one, then
the operator between their values. The first of these that fails decides; an operator that fails is
reported with its symbol and its place. -/
def evaluate {level : Nat} (scope : Scope) (start : Nat) : Expression level → Except Fault Value
  | .operand leaf _ => leaf.value scope
  | .group body => body.evaluate scope (start + 1)
  | .negation more body _ => do
    let value ← body.evaluate scope (start + more + 1)
    return Value.not^[more + 1] value
  | .binary operator left right _ => do
    let a ← left.evaluate scope start
    let b ← right.evaluate scope (start + left.width + 1)
    (operator.apply scope.nesting a b).mapError fun cause =>
      .failed ⟨cause, some operator.symbol, some ↑(start + left.width), some scope.expression⟩

/-- What an expression that begins at a place does to a stack of values. -/
def effect {level : Nat} (scope : Scope) (start : Nat) :
    Expression level → List Value → Except Fault (List Value)
  | .operand leaf _, values => do return (← leaf.value scope) :: values
  | .group body, values => body.effect scope (start + 1) values
  | .negation more body _, values => do
    let negated ← applyMarks scope start more values
    let pushed ← body.effect scope (start + more + 1) negated
    Machine.applyPending scope (Operator.not.waiting ↑(start + more)) pushed
  | .binary operator left right _, values => do
    let first ← left.effect scope start values
    let second ← right.effect scope (start + left.width + 1) first
    Machine.applyPending scope ((Operator.binary operator).waiting ↑(start + left.width)) second

/-- Whether every `!` stands directly before an operand or a group. -/
def IsPlain {level : Nat} : Expression level → Prop
  | .operand _ _ => True
  | .group body => body.IsPlain
  | .negation more body _ => more = 0 ∧ body.IsPlain
  | .binary _ left right _ => left.IsPlain ∧ right.IsPlain

end Expression

end Criteria
