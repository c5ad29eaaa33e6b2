import Criteria.Proofs.Expression.Evaluation

/-!
# What an expression does to a stack

Whether an expression has a value, and which one, does not depend on where it stands. What it does to
a stack of values comes in two parts: it negates the operand to its left a number of times, and it
pushes a value of its own.

* `Expression.stack?`: the effect of an expression, without places and faults;
* `Expression.reach`: how many marks `!` are applied to the operand to the left. These are the marks,
  all but the last one of their run, that no operand of the expression stands before;
* `Expression.pushed?`: the value that is pushed. The marks that reach out of a right operand are
  applied to the left one;
* `stack?_eq`: the two parts of the effect.
-/

namespace Criteria

open Machine Outcome

variable {scope : Scope} {level : Nat}

/-- The values after an operator has been applied to the topmost ones, if it can be. -/
def Operator.onTop? (nesting : Nat) (operator : Operator) (values : List Value) :
    Option (List Value) :=
  (popOperands operator.arity values).toOption.bind fun (operands, rest) =>
    (operator.apply nesting operands).toOption.map (· :: rest)

/-- Negate the topmost value a number of times. -/
def negateTop? (count : Nat) : List Value → Option (List Value)
  | [] => if count = 0 then some [] else none
  | value :: values => some (Value.not^[count] value :: values)

/-- The only value that is left, if it is one. -/
def onlyValue? : List Value → Option Value
  | [value] => some value
  | _ => none

namespace Expression

/-- What an expression does to a stack of values, if nothing fails. -/
def stack? {level : Nat} (scope : Scope) : Expression level → List Value → Option (List Value)
  | .operand leaf _, values => (leaf.value scope).toOption.map (· :: values)
  | .group body, values => body.stack? scope values
  | .negation more body _, values =>
    (negateTop? more values).bind fun negated => (body.stack? scope negated).bind (negateTop? 1)
  | .binary operator left right _, values =>
    (left.stack? scope values).bind fun first => (right.stack? scope first).bind
      ((Operator.binary operator).onTop? scope.nesting)

/-- The number of marks that are applied to the operand to the left of an expression. -/
def reach {level : Nat} : Expression level → Nat
  | .operand _ _ => 0
  | .group body => body.reach
  | .negation more body _ => more + body.reach
  | .binary _ left _ _ => left.reach

/-- The value that an expression pushes, if nothing fails. -/
def pushed? {level : Nat} (scope : Scope) : Expression level → Option Value
  | .operand leaf _ => (leaf.value scope).toOption
  | .group body => body.pushed? scope
  | .negation _ body _ => (body.pushed? scope).map Value.not
  | .binary operator left right _ =>
    (left.pushed? scope).bind fun a => (right.pushed? scope).bind fun b =>
      (operator.apply scope.nesting (Value.not^[right.reach] a) b).toOption

/-- The value of an expression, if it has one. -/
def value? (scope : Scope) (e : Expression level) : Option Value :=
  (evaluateTokens scope (e.tokens 0)).toOption

end Expression

/-! ### Negating the topmost value -/

theorem negateTop?_zero (values : List Value) : negateTop? 0 values = some values := by
  cases values <;> rfl

theorem negateTop?_add (first second : Nat) (values : List Value) :
    negateTop? (first + second) values =
      (negateTop? first values).bind (negateTop? second) := by
  cases values with
  | nil => cases first <;> cases second <;> rfl
  | cons value values =>
    show some (Value.not^[first + second] value :: values) =
      some (Value.not^[second] (Value.not^[first] value) :: values)
    rw [Nat.add_comm, Function.iterate_add_apply]

theorem onTop?_not (nesting : Nat) : Operator.not.onTop? nesting = negateTop? 1 := by
  funext values
  cases values <;> rfl

/-! ### Effects without places and faults -/

theorem toOption_applyPending (operator : Operator) (index : Int) (values : List Value) :
    (applyPending scope (operator.waiting index) values).toOption =
      operator.onTop? scope.nesting values := by
  rw [applyPending_waiting, Operator.onTop?]
  by_cases hlength : values.length < operator.arity
  · simp only [if_pos hlength, popOperands_of_lt hlength]
    rfl
  · simp only [if_neg hlength, toOption_bind, toOption_mapError]
    congr 1
    funext taken
    cases (operator.apply scope.nesting taken.1).toOption <;> rfl

theorem toOption_applyMarks (start count : Nat) (values : List Value) :
    (applyMarks scope start count values).toOption = negateTop? count values := by
  induction count generalizing start values with
  | zero => exact (negateTop?_zero values).symm
  | succ count ih =>
    rw [applyMarks, toOption_bind, toOption_applyPending, onTop?_not,
      show count + 1 = 1 + count by omega, negateTop?_add]
    simp only [ih]

/-- Without its faults the effect of an expression does not depend on where it stands. -/
theorem toOption_effect (e : Expression level) (start : Nat) (values : List Value) :
    (e.effect scope start values).toOption = e.stack? scope values := by
  induction e generalizing start values with
  | operand leaf text =>
    rw [Expression.effect, Expression.stack?, toOption_bind]
    cases (leaf.value scope).toOption <;> rfl
  | group body ih => exact ih (start + 1) values
  | negation more body binds ih =>
    simp only [Expression.effect, Expression.stack?, toOption_bind, toOption_applyMarks, ih,
      toOption_applyPending, onTop?_not]
  | binary operator left right binds ihleft ihright =>
    simp only [Expression.effect, Expression.stack?, toOption_bind, ihleft, ihright,
      toOption_applyPending]

theorem toOption_onlyValue (values : List Value) :
    (onlyValue scope values).toOption = onlyValue? values := by
  rcases values with _ | ⟨value, _ | ⟨other, values⟩⟩ <;> rfl

theorem value?_eq_stack? (e : Expression level) :
    e.value? scope = (e.stack? scope []).bind onlyValue? := by
  rw [Expression.value?, evaluateTokens_eq_effect, toOption_bind, toOption_effect]
  simp only [toOption_onlyValue]

/-! ### The two parts of an effect -/

/-- An expression negates the operand to its left a number of times, and pushes its own value. -/
theorem stack?_eq (e : Expression level) (values : List Value) :
    e.stack? scope values =
      (negateTop? e.reach values).bind fun negated => (e.pushed? scope).map (· :: negated) := by
  induction e generalizing values with
  | operand leaf text =>
    rw [Expression.reach, negateTop?_zero]
    rfl
  | group body ih => exact ih values
  | negation more body binds ih =>
    have hbody : ∀ negated, (body.stack? scope negated).bind (negateTop? 1) =
        (negateTop? body.reach negated).bind fun reached =>
          ((body.pushed? scope).map Value.not).map (· :: reached) := by
      intro negated
      rw [ih, Option.bind_assoc]
      congr 1
      funext reached
      cases body.pushed? scope <;> rfl
    simp only [Expression.stack?, Expression.reach, Expression.pushed?, hbody, negateTop?_add,
      Option.bind_assoc]
  | binary operator left right binds ihleft ihright =>
    have hright : ∀ (a : Value) (reached : List Value),
        (right.stack? scope (a :: reached)).bind ((Operator.binary operator).onTop? scope.nesting) =
          ((right.pushed? scope).bind fun b =>
            (operator.apply scope.nesting (Value.not^[right.reach] a) b).toOption).map
              (· :: reached) := by
      intro a reached
      -- the left operand is on top now, so the marks that reach to the left end there
      rw [ihright, negateTop?, Option.bind_some, Option.bind_map, Option.map_bind]
      rfl
    rw [Expression.stack?, Expression.reach, Expression.pushed?, ihleft, Option.bind_assoc]
    congr 1
    funext reached
    rw [Option.bind_map, Option.map_bind]
    congr 1
    funext a
    exact hright a reached

end Criteria
