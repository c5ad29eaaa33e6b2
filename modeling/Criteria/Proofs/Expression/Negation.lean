import Mathlib.Algebra.Ring.Parity
import Criteria.Evaluate
import Criteria.Proofs.Expression.Effect

/-!
# Repeated negation

A run of marks `!` before an operand is not read as a negation of a negation: an operator waits until
the next one comes in, and a mark has precedence over another one, so every mark but the last is
applied to what is then on top of the values. That is the operand to the left of the run, however
many parentheses stand between.

* `Expression.nested`: the negation of a negation, with groups;
* `Context`: an expression with a place left open. `before?` is the stack when the place is reached,
  `complete?` the value after it;
* `value?_repeated_negation`: the value with a run of marks, the value with nested groups instead,
  and exactly when the two do the same.
-/

namespace Criteria

open Machine Outcome

variable {scope : Scope} {level inner : Nat}

/-- A number of negations and one more, each of them around a group that holds the next one. -/
def Expression.nested {level : Nat} (body : Expression (Operator.not.precedence + 1))
    (binds : level ≤ Operator.not.precedence) : Nat → Expression level
  | 0 => .negation 0 body binds
  | more + 1 => .negation 0 (.group (nested body (Nat.zero_le _) more)) binds

/-- Nested negations reach no further than the operand that they are written before. -/
theorem reach_nested (body : Expression (Operator.not.precedence + 1))
    (binds : level ≤ Operator.not.precedence) (more : Nat) :
    (Expression.nested body binds more).reach = body.reach := by
  induction more generalizing level with
  | zero => exact Nat.zero_add body.reach
  | succ more ih => exact (Nat.zero_add _).trans (ih (Nat.zero_le _))

/-- Nested negations are all applied to the operand that they are written before. -/
theorem pushed?_nested (body : Expression (Operator.not.precedence + 1))
    (binds : level ≤ Operator.not.precedence) (more : Nat) :
    (Expression.nested body binds more).pushed? scope =
      (body.pushed? scope).map Value.not^[more + 1] := by
  induction more generalizing level with
  | zero => rfl
  | succ more ih =>
    rw [Expression.nested, Expression.pushed?, Expression.pushed?, ih, Option.map_map,
      Function.iterate_succ' Value.not (more + 1)]

/-! ### Places in an expression -/

/-- An expression with a place left open for an expression of a level. -/
inductive Context (inner : Nat) : Nat → Type
  | here : Context inner inner
  | group {level : Nat} (body : Context inner 0) : Context inner level
  | negation {level : Nat} (more : Nat) (body : Context inner (Operator.not.precedence + 1))
      (binds : level ≤ Operator.not.precedence) : Context inner level
  | onLeft {level : Nat} (operator : BinaryOperator) (left : Context inner operator.precedence)
      (right : Expression (operator.precedence + 1)) (binds : level ≤ operator.precedence) :
      Context inner level
  | onRight {level : Nat} (operator : BinaryOperator) (left : Expression operator.precedence)
      (right : Context inner (operator.precedence + 1)) (binds : level ≤ operator.precedence) :
      Context inner level

namespace Context

/-- The expression with its place filled. -/
def fill {level : Nat} (e : Expression inner) : Context inner level → Expression level
  | .here => e
  | .group body => .group (body.fill e)
  | .negation more body binds => .negation more (body.fill e) binds
  | .onLeft operator left right binds => .binary operator (left.fill e) right binds
  | .onRight operator left right binds => .binary operator left (right.fill e) binds

/-- The stack when the place is reached. -/
def before? {level : Nat} (scope : Scope) : Context inner level → List Value → Option (List Value)
  | .here, values => some values
  | .group body, values => body.before? scope values
  | .negation more body _, values => (negateTop? more values).bind (body.before? scope)
  | .onLeft _ left _ _, values => left.before? scope values
  | .onRight _ left right _, values => (left.stack? scope values).bind (right.before? scope)

/-- The stack after what follows the place. -/
def after? {level : Nat} (scope : Scope) : Context inner level → List Value → Option (List Value)
  | .here, values => some values
  | .group body, values => body.after? scope values
  | .negation _ body _, values => (body.after? scope values).bind (negateTop? 1)
  | .onLeft operator left right _, values =>
    (left.after? scope values).bind fun first => (right.stack? scope first).bind
      ((Operator.binary operator).onTop? scope.nesting)
  | .onRight operator _ right _, values =>
    (right.after? scope values).bind ((Operator.binary operator).onTop? scope.nesting)

/-- The value that is left after what follows the place. -/
def complete? (scope : Scope) (place : Context inner level) (values : List Value) : Option Value :=
  (place.after? scope values).bind onlyValue?

end Context

theorem stack?_fill (place : Context inner level) (e : Expression inner) (values : List Value) :
    (place.fill e).stack? scope values =
      (place.before? scope values).bind fun reached =>
        (e.stack? scope reached).bind (place.after? scope) := by
  induction place generalizing values with
  | here => exact (Option.bind_fun_some _).symm
  | group body ih => exact ih values
  | negation more body binds ih =>
    simp only [Context.fill, Context.before?, Expression.stack?, ih, Option.bind_assoc]
    rfl
  | onLeft operator left right binds ih =>
    simp only [Context.fill, Context.before?, Expression.stack?, ih, Option.bind_assoc]
    rfl
  | onRight operator left right binds ih =>
    simp only [Context.fill, Context.before?, Expression.stack?, ih, Option.bind_assoc]
    rfl

theorem value?_fill (place : Context inner level) (e : Expression inner) :
    (place.fill e).value? scope =
      (place.before? scope []).bind fun reached =>
        (e.stack? scope reached).bind (place.complete? scope) := by
  rw [value?_eq_stack?, stack?_fill]
  simp only [Option.bind_assoc]
  rfl

/-! ### Values negated a number of times -/

theorem iterate_not_bool (count : Nat) (b : Bool) :
    Value.not^[count] (.bool b) = .bool (Bool.not^[count] b) := by
  induction count generalizing b with
  | zero => rfl
  | succ count ih =>
    rw [Function.iterate_succ_apply, Function.iterate_succ_apply]
    exact ih !b

theorem iterate_not_bool_of_even {count : Nat} (h : Even count) (b : Bool) :
    Value.not^[count] (.bool b) = .bool b := by
  rw [iterate_not_bool, Bool.involutive_not.iterate_even h]
  rfl

/-- Negations leave a value alone exactly if it is a truth value and their number is even. -/
theorem iterate_not_eq_self_iff (more : Nat) (value : Value) :
    Value.not^[more + 1] value = value ↔ (∃ b, value = .bool b) ∧ Even (more + 1) := by
  constructor
  · intro h
    have hbool : value = .bool !(Value.not^[more] value).isTruthy := by
      conv_lhs => rw [← h, Function.iterate_succ_apply']
      rfl
    refine ⟨⟨_, hbool⟩, ?_⟩
    by_contra hodd
    rw [hbool, iterate_not_bool, Bool.involutive_not.iterate_odd (Nat.not_even_iff_odd.1 hodd)] at h
    injection h with h
    simp at h
  · rintro ⟨⟨b, rfl⟩, heven⟩
    exact iterate_not_bool_of_even heven b

/-! ### Which operand on the left shows the difference -/

/-- A conjunction or disjunction of a value with a comparison that is false whatever stands in it. -/
def besides (operator : BinaryOperator) (left : Value)
    (binds : operator.precedence + 1 ≤ BinaryOperator.hasLength.precedence) :
    Context BinaryOperator.hasLength.precedence 0 :=
  .onRight operator (.operand (.literal left) "")
    (.onLeft .hasLength .here (.operand (.literal .null) "") binds) (Nat.zero_le _)

theorem hasLength_null (value : Value) : value.hasLength .null = .bool false := by
  unfold Value.hasLength
  cases value.size? with
  | none => rfl
  | some size => cases size <;> rfl

theorem complete?_besides (operator : BinaryOperator) (left : Value)
    (binds : operator.precedence + 1 ≤ BinaryOperator.hasLength.precedence) (value other : Value) :
    (besides operator left binds).complete? scope [value, other] =
      (operator.apply scope.nesting other (.bool false)).toOption := by
  have hfirst : (besides operator left binds).complete? scope [value, other] =
      ((Operator.binary operator).onTop? scope.nesting [value.hasLength .null, other]).bind
        onlyValue? := rfl
  rw [hfirst, hasLength_null]
  show ((operator.apply scope.nesting other (.bool false)).toOption.map _).bind onlyValue? = _
  cases (operator.apply scope.nesting other (.bool false)).toOption <;> rfl

/-- Two values that cannot be told apart by a conjunction nor by a disjunction with `false` are
equal. -/
theorem eq_of_and_of_or {a b : Value} (hand : a.and (.bool false) = b.and (.bool false))
    (hor : a.or (.bool false) = b.or (.bool false)) : a = b := by
  cases ha : a.isTruthy <;> cases hb : b.isTruthy <;>
    simp only [Value.and, Value.or, ha, hb, if_true, Bool.false_eq_true, if_false] at hand hor
  · exact hand
  · rw [← hor] at hb
    cases hb
  · rw [hor] at ha
    cases ha
  · exact hor

/-! ### The values of both -/

section

variable {more : Nat} {body : Expression (Operator.not.precedence + 1)}

theorem value?_fill_eq (place : Context inner level) (e : Expression inner) :
    (place.fill e).value? scope =
      (place.before? scope []).bind fun reached => (negateTop? e.reach reached).bind
        fun negated => (e.pushed? scope).bind fun value =>
          place.complete? scope (value :: negated) := by
  rw [value?_fill]
  simp only [stack?_eq, Option.bind_assoc, Option.bind_map]
  rfl

theorem value?_fill_negation (binds : inner ≤ Operator.not.precedence)
    (place : Context inner level) :
    (place.fill (.negation (more + 1) body binds)).value? scope =
      (place.before? scope []).bind fun reached =>
        (negateTop? (more + 1 + body.reach) reached).bind fun negated =>
          (body.pushed? scope).bind fun value => place.complete? scope (value.not :: negated) := by
  rw [value?_fill_eq]
  simp only [Expression.pushed?, Option.bind_map]
  rfl

theorem value?_fill_nested (binds : inner ≤ Operator.not.precedence)
    (place : Context inner level) :
    (place.fill (.nested body binds (more + 1))).value? scope =
      (place.before? scope []).bind fun reached => (negateTop? body.reach reached).bind
        fun negated => (body.pushed? scope).bind fun value =>
          place.complete? scope (Value.not^[more + 2] value :: negated) := by
  rw [value?_fill_eq]
  simp only [reach_nested, pushed?_nested, Option.bind_map]
  rfl

/-- Where a run of marks does what nested negations do, further marks leave the operand to the left
as it is. -/
theorem iterate_not_eq_self_of_besides {value left : Value} (hvalue : body.pushed? scope = some value)
    (h : ∀ (operator : BinaryOperator)
      (binds : operator.precedence + 1 ≤ BinaryOperator.hasLength.precedence),
      ((besides operator left binds).fill (.negation (more + 1) body (by decide))).value? scope =
        ((besides operator left binds).fill (.nested body (by decide) (more + 1))).value? scope) :
    Value.not^[more + 1] (Value.not^[body.reach] left) = Value.not^[body.reach] left := by
  have hstack : ∀ (operator : BinaryOperator)
      (binds : operator.precedence + 1 ≤ BinaryOperator.hasLength.precedence),
      (operator.apply scope.nesting (Value.not^[more + 1 + body.reach] left) (.bool false)).toOption =
        (operator.apply scope.nesting (Value.not^[body.reach] left) (.bool false)).toOption := by
    intro operator binds
    have hvalues := h operator binds
    rw [value?_fill_negation, value?_fill_nested, hvalue] at hvalues
    exact (complete?_besides operator left binds _ _).symm.trans
      (hvalues.trans (complete?_besides operator left binds _ _))
  rw [← Function.iterate_add_apply]
  -- `&&` gives back what counts as false, `||` what counts as true
  exact eq_of_and_of_or (Option.some.inj (hstack .and (by decide)))
    (Option.some.inj (hstack .or (by decide)))

/-- A value that has been negated is a truth value. -/
theorem iterate_not_of_pos {count : Nat} (h : count ≠ 0) (value : Value) :
    ∃ b, Value.not^[count] value = .bool b := by
  obtain ⟨count, rfl⟩ := Nat.exists_eq_succ_of_ne_zero h
  exact ⟨_, Function.iterate_succ_apply' Value.not count value⟩

end

/-- **A run of marks `!` against nested negations.** With a run of marks the value is that of the
expression in which the operand to the left has been negated, as often as there are marks but the
last, and the operand of the run once; without an operand to the left there is none. With nested
negations it is the operand of the run that is negated each time. An operand to the left hides the
difference in every expression exactly if the number of marks is odd and the operand is a truth
value, or becomes one by a mark inside the operand of the run. -/
theorem value?_repeated_negation (scope : Scope) (more : Nat)
    (body : Expression (Operator.not.precedence + 1)) :
    (∀ {inner level : Nat} (binds : inner ≤ Operator.not.precedence) (place : Context inner level),
      (place.fill (.negation (more + 1) body binds)).value? scope =
          ((place.before? scope []).bind fun reached =>
            (negateTop? (more + 1 + body.reach) reached).bind fun negated =>
              (body.pushed? scope).bind fun value =>
                place.complete? scope (value.not :: negated)) ∧
        (place.fill (.nested body binds (more + 1))).value? scope =
          ((place.before? scope []).bind fun reached =>
            (negateTop? body.reach reached).bind fun negated =>
              (body.pushed? scope).bind fun value =>
                place.complete? scope (Value.not^[more + 2] value :: negated))) ∧
    ∀ value, body.pushed? scope = some value → ∀ left : Value,
      (∀ {inner level : Nat} (binds : inner ≤ Operator.not.precedence)
          (place : Context inner level) (rest : List Value),
          place.before? scope [] = some (left :: rest) →
        (place.fill (.negation (more + 1) body binds)).value? scope =
          (place.fill (.nested body binds (more + 1))).value? scope) ↔
      Odd (more + 2) ∧ (body.reach = 0 → ∃ b, left = .bool b) := by
  refine ⟨fun binds place => ⟨value?_fill_negation binds place, value?_fill_nested binds place⟩,
    fun value hvalue left => ?_⟩
  rw [Nat.odd_add_one, Nat.not_odd_iff_even]
  constructor
  · intro h
    -- two places are enough to see how often the operand to the left has been negated
    have hself := iterate_not_eq_self_of_besides hvalue fun operator binds =>
      h (by decide) (besides operator left binds) [] rfl
    obtain ⟨hbool, heven⟩ := (iterate_not_eq_self_iff more _).1 hself
    refine ⟨heven, fun hreach => ?_⟩
    rw [hreach] at hbool
    exact hbool
  · rintro ⟨heven, hreach⟩ inner level binds place rest hbefore
    have hbool : ∃ b, Value.not^[body.reach] left = .bool b := by
      by_cases hzero : body.reach = 0
      · rw [hzero]
        exact hreach hzero
      · exact iterate_not_of_pos hzero left
    have hleft : Value.not^[more + 1 + body.reach] left = Value.not^[body.reach] left := by
      rw [Function.iterate_add_apply]
      exact (iterate_not_eq_self_iff more _).2 ⟨hbool, heven⟩
    have hvalue' : Value.not^[more + 2] value = value.not := by
      rw [Function.iterate_succ_apply]
      exact iterate_not_bool_of_even heven _
    rw [value?_fill_negation, value?_fill_nested, hbefore, hvalue, Option.bind_some,
      Option.bind_some, negateTop?, negateTop?, hleft]
    show place.complete? scope (value.not :: Value.not^[body.reach] left :: rest) =
      place.complete? scope (Value.not^[more + 2] value :: Value.not^[body.reach] left :: rest)
    rw [hvalue']

/-- In `true && !!true` the marks give `false`, the nested negations give `true`. -/
theorem value?_repeated_negation_true :
    let body : Expression (Operator.not.precedence + 1) :=
      .operand (.literal (.bool true)) "true"
    let place : Context 2 1 :=
      .onRight .and (.operand (.literal (.bool true)) "true") .here (by decide)
    let scope : Scope := ⟨1000, .null, .standard, ""⟩
    (place.fill (.negation 1 body (by decide))).value? scope = some (.bool false) ∧
      (place.fill (.nested body (by decide) 1)).value? scope = some (.bool true) := by
  intro body place scope
  obtain ⟨hmarks, hnested⟩ := (value?_repeated_negation scope 0 body).1 (by decide) place
  exact ⟨hmarks.trans rfl, hnested.trans rfl⟩

theorem evaluate_double_negation_ne_nested :
    evaluate 1000 .standard .null "true && !!true" = .ok (.bool false) ∧
      evaluate 1000 .standard .null "true && !(!true)" = .ok (.bool true) := by
  constructor <;> rfl

end Criteria
