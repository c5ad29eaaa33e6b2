import Criteria.Proofs.Expression.Reading
import Criteria.Proofs.Token

/-!
# The value of an expression

If no `!` stands before another one, an expression does nothing to a stack of values but push its
own value, so the machine gives what the tree stands for (`evaluateTokens_eq_evaluate`): operators
are applied to their operands from left to right, both operands of every operator are evaluated, and
of several failures the first one is reported.
-/

namespace Criteria

open Machine Outcome

variable {scope : Scope} {level : Nat}

/-! ### Places -/

theorem index_marks (start count : Nat) :
    (marks start count).map Token.index = places start count := by
  induction count generalizing start with
  | zero => rfl
  | succ count ih =>
    rw [marks, List.map_cons, ih, Nat.add_comm count 1, places_add, places_one]
    rfl

/-- The tokens of an expression stand at consecutive places. -/
theorem index_tokens (e : Expression level) (start : Nat) :
    (e.tokens start).map Token.index = places start e.width := by
  induction e generalizing start with
  | operand leaf text => rfl
  | group body ih =>
    rw [Expression.tokens, List.map_cons, List.map_append, ih, Expression.width,
      show body.width + 2 = 1 + (body.width + 1) by omega, places_add, places_add, places_one,
      places_one]
    rfl
  | negation more body binds ih =>
    rw [Expression.tokens, List.map_append, index_marks, ih, Expression.width,
      places_add start (more + 1), Nat.add_assoc start more 1]
  | binary operator left right binds ihleft ihright =>
    rw [Expression.tokens, List.map_append, List.map_cons, ihleft, ihright, Expression.width,
      places_add, places_add, places_one, List.append_assoc, ← Nat.add_assoc]
    rfl

/-! ### Plain expressions -/

theorem applyPending_not (index : Int) (value : Value) (values : List Value) :
    applyPending scope (Operator.not.waiting index) (value :: values) =
      .ok (value.not :: values) := rfl

/-- A waiting operator between two operands takes the right one from the top, the left one below it.
-/
theorem applyPending_binary (operator : BinaryOperator) (index : Int) (a b : Value)
    (values : List Value) :
    applyPending scope ((Operator.binary operator).waiting index) (b :: a :: values) =
      (operator.apply scope.nesting a b).mapError (fun cause =>
        .failed ⟨cause, some operator.symbol, some index, some scope.expression⟩) >>= fun value =>
          .ok (value :: values) := by
  rw [applyPending_waiting, if_neg (by simp [Operator.arity])]
  rfl

/-- A plain expression pushes its value. -/
theorem effect_of_isPlain (e : Expression level) (h : e.IsPlain) (start : Nat)
    (values : List Value) :
    e.effect scope start values =
      e.evaluate scope start >>= fun value => .ok (value :: values) := by
  induction e generalizing start values with
  | operand leaf text => rfl
  | group body ih => exact ih h (start + 1) values
  | negation more body binds ih =>
    obtain ⟨rfl, hbody⟩ := h
    simp only [Expression.effect, Expression.evaluate, applyMarks, ok_bind, ih hbody, bind_assoc,
      applyPending_not]
    rfl
  | binary operator left right binds ihleft ihright =>
    simp only [Expression.effect, Expression.evaluate, ihleft h.1, ihright h.2, bind_assoc, ok_bind,
      applyPending_binary]

/-- **The machine gives what the tree stands for**: on the tokens of a plain expression, which stand
at consecutive places, it ends with the value or with the first failure of the tree. -/
theorem evaluateTokens_eq_evaluate (scope : Scope) (e : Expression level) (h : e.IsPlain) :
    (e.tokens 0).map Token.index = places 0 e.width ∧
      evaluateTokens scope (e.tokens 0) = e.evaluate scope 0 := by
  refine ⟨index_tokens e 0, ?_⟩
  rw [evaluateTokens_eq_effect, effect_of_isPlain e h, bind_assoc]
  exact bind_pure (e.evaluate scope 0)

/-- In `!(x == 1) && 2 - 'a' * 3` the product fails, and is reported at its place. -/
theorem evaluateTokens_eq_evaluate_product :
    let e : Expression 1 := .binary .and
      (.negation 0 (.group (.binary .equal (.operand (.path "x") "x")
        (.operand (.literal (.int 1)) "1") (by decide))) (by decide))
      (.binary .subtract (.operand (.literal (.int 2)) "2")
        (.binary .multiply (.operand (.literal (.ofString "a")) "'a'")
          (.operand (.literal (.int 3)) "3") (by decide)) (by decide)) (by decide)
    e.IsPlain ∧ evaluateTokens ⟨1000, .null, .standard, ""⟩ (e.tokens 0) =
      .error (.failed ⟨.cannotCombine "multiply" .string .number, some "*", some 10, some ""⟩) := by
  intro e
  have h : e.IsPlain := ⟨⟨rfl, trivial, trivial⟩, trivial, trivial, trivial⟩
  exact ⟨h, (evaluateTokens_eq_evaluate _ e h).2.trans rfl⟩

end Criteria
