import Mathlib.Data.List.Forall2
import Criteria.Proofs.Machine.Step

/-!
# Runs that correspond

A run depends on the data and on the limits through the values of its operands only. So where operands
have related values in two scopes, and every operator gives related values for related operands, the
outcomes are related.

* `Scope.IsLike`: scopes that have all but their data and limits in common;
* `IsRespected`: operators give related outcomes for related operands;
* `Machine.IsLike`: machines with related values that agree in all else, `corresponds_step`,
  `corresponds_run`, `corresponds_finish`: what the machine does leads to such machines again;
* `corresponds_evaluateTokens`: so tokens have related values in two scopes, unless an operand stops
  the first run;
* `IsKept`: a property that operators keep, which all values have if all operands have it.
-/

namespace Criteria

/-- Two scopes differ at most in their data and their limits. -/
structure Scope.IsLike (scope other : Scope) : Prop where
  nesting : scope.nesting = other.nesting
  expression : scope.expression = other.expression

open Machine Outcome

/-- Every operator gives related outcomes for related operands. -/
def IsRespected (R : Value → Value → Prop) : Prop :=
  ∀ (nesting : Nat) (operator : Operator) (operands others : List Value),
    List.Forall₂ R operands others →
      Related R (operator.apply nesting operands) (operator.apply nesting others)

theorem isRespected_eq : IsRespected Eq := by
  intro nesting operator operands others h
  rw [List.forall₂_eq_eq_eq] at h
  exact .of_eq (congrArg (operator.apply nesting) h)

variable {R : Value → Value → Prop} {stops : Fault → Prop} {scope other : Scope}
  {test : Pending → Except Fault Bool} {machine twin : Machine} {values others : List Value}
  {top : Pending} {pending : List Pending} {unbalanced : List Int} {token : Token}
  {tokens : List Token}

namespace Machine

/-- Two machines have related values and agree in all else. -/
structure IsLike (R : Value → Value → Prop) (machine twin : Machine) : Prop where
  values : List.Forall₂ R machine.values twin.values
  pending : machine.pending = twin.pending
  unbalanced : machine.unbalanced = twin.unbalanced

theorem isLike_start : start.IsLike R start := ⟨.nil, rfl, rfl⟩

theorem IsLike.push (h : machine.IsLike R twin) (top : Pending) :
    (machine.push top).IsLike R (twin.push top) :=
  ⟨h.values, congrArg (top :: ·) h.pending, h.unbalanced⟩

theorem IsLike.record {index : Int} (h : machine.IsLike R twin) :
    (machine.record index).IsLike R (twin.record index) :=
  ⟨h.values, h.pending, congrArg (· ++ [index]) h.unbalanced⟩

/-! ### Between operands -/

theorem corresponds_popValue (h : List.Forall₂ R values others) :
    Corresponds stops (fun p q => R p.1 q.1 ∧ List.Forall₂ R p.2 q.2) (popValue values)
      (popValue others) := by
  cases h with
  | nil => exact .error _
  | cons hfirst hrest => exact .ok ⟨hfirst, hrest⟩

theorem corresponds_popOperands (arity : Nat) (h : List.Forall₂ R values others) :
    Corresponds stops (fun p q => List.Forall₂ R p.1 q.1 ∧ List.Forall₂ R p.2 q.2)
      (popOperands arity values) (popOperands arity others) := by
  refine (corresponds_popValue h).bind fun p q ⟨hlast, hrest⟩ => ?_
  dsimp only
  split
  case isTrue => exact .ok ⟨.cons hlast .nil, hrest⟩
  case isFalse =>
    refine (corresponds_popValue hrest).bind fun p' q' ⟨hfirst, hrest⟩ => ?_
    exact .ok ⟨.cons hfirst (.cons hlast .nil), hrest⟩

theorem corresponds_applyPending (hR : IsRespected R) (hscope : scope.IsLike other)
    (h : List.Forall₂ R values others) :
    Corresponds stops (List.Forall₂ R) (applyPending scope top values)
      (applyPending other top others) := by
  have hfail : failAt scope top = failAt other top := by
    funext cause
    rw [failAt, failAt, hscope.expression]
  unfold applyPending
  rw [hfail, hscope.nesting, h.length_eq]
  split
  case h_1 => exact .error _
  case h_2 operator _ =>
    split
    case isTrue => exact .error _
    case isFalse =>
      refine (corresponds_popOperands operator.arity h).bind fun p q ⟨hoperands, hrest⟩ => ?_
      refine ((hR _ operator _ _ hoperands).mapError _).bind fun result found hresult => ?_
      exact .ok (.cons hresult hrest)

theorem corresponds_drain (hR : IsRespected R) (hscope : scope.IsLike other)
    (h : machine.IsLike R twin) :
    Corresponds stops (IsLike R) (machine.drain scope test) (twin.drain other test) := by
  obtain ⟨values, pending, unbalanced⟩ := machine
  obtain ⟨others, _, _⟩ := twin
  obtain ⟨hvalues, rfl, rfl⟩ := h
  induction pending generalizing values others with
  | nil => exact .ok ⟨hvalues, rfl, rfl⟩
  | cons top rest ih =>
    simp only [drain_cons]
    refine (Corresponds.of_eq rfl).bind fun passes _ hpasses => ?_
    subst hpasses
    split
    case isTrue =>
      exact (corresponds_applyPending hR hscope hvalues).bind fun _ _ happlied => ih _ _ happlied
    case isFalse => exact .ok ⟨hvalues, rfl, rfl⟩

theorem corresponds_close {index : Int} (h : machine.IsLike R twin) :
    Corresponds stops (IsLike R) (machine.close index) (twin.close index) := by
  obtain ⟨values, pending, unbalanced⟩ := machine
  obtain ⟨others, _, _⟩ := twin
  obtain ⟨hvalues, rfl, rfl⟩ := h
  cases pending with
  | nil => exact .ok ⟨hvalues, rfl, rfl⟩
  | cons opening rest =>
    refine (Corresponds.of_eq rfl).bind fun struck _ hstruck => ?_
    subst hstruck
    exact .ok ⟨hvalues, rfl, rfl⟩

theorem corresponds_onlyValue (hscope : scope.IsLike other) (h : List.Forall₂ R values others) :
    Corresponds stops R (onlyValue scope values) (onlyValue other others) := by
  unfold onlyValue
  rw [hscope.expression]
  cases h with
  | nil => exact .error _
  | cons hfirst hrest =>
    cases hrest with
    | nil => exact .ok hfirst
    | cons _ hmore =>
      simp only [List.length_cons, hmore.length_eq]
      exact .error _

theorem corresponds_finish (hR : IsRespected R) (hscope : scope.IsLike other)
    (h : machine.IsLike R twin) :
    Corresponds stops R (machine.finish scope) (twin.finish other) := by
  unfold finish
  rw [h.unbalanced, hscope.expression]
  split
  case isTrue =>
    exact (corresponds_drain hR hscope h).bind fun _ _ hdrained =>
      corresponds_onlyValue hscope hdrained.values
  case isFalse => exact .error _

/-! ### Runs in two scopes -/

/-- A step leads to machines with related values, unless an operand stops the first one. -/
theorem corresponds_step (hR : IsRespected R) (hscope : scope.IsLike other)
    (h : machine.IsLike R twin)
    (hvalue : ∀ operand, token.operand? = some operand →
      Corresponds stops R (operand.value scope) (operand.value other)) :
    Corresponds stops (IsLike R) (step scope machine token) (step other twin token) := by
  rcases token.item_cases with ⟨operand, hoperand⟩ | ⟨symbol, hitem⟩ | hitem | ⟨symbol, hitem⟩
  · rw [step_of_operand hoperand, step_of_operand hoperand]
    refine (hvalue operand hoperand).bind fun value found hfound => ?_
    exact .ok ⟨.cons hfound h.values, h.pending, h.unbalanced⟩
  · rw [step_of_opening hitem, step_of_opening hitem]
    exact .ok (h.push _).record
  · rw [step_of_closing hitem, step_of_closing hitem]
    exact (corresponds_drain hR hscope h).bind fun _ _ hdrained => corresponds_close hdrained
  · rw [step_of_operator hitem, step_of_operator hitem]
    refine (corresponds_drain hR hscope h).bind fun _ _ hdrained => ?_
    exact .ok (hdrained.push _)

/-- So does a run. -/
theorem corresponds_run (hR : IsRespected R) (hscope : scope.IsLike other)
    (h : machine.IsLike R twin)
    (hvalues : ∀ token ∈ tokens, ∀ operand, token.operand? = some operand →
      Corresponds stops R (operand.value scope) (operand.value other)) :
    Corresponds stops (IsLike R) (run scope machine tokens) (run other twin tokens) := by
  induction tokens generalizing machine twin with
  | nil => exact .ok h
  | cons token tokens ih =>
    rw [run_cons, run_cons]
    obtain ⟨htoken, htokens⟩ := List.forall_mem_cons.1 hvalues
    exact (corresponds_step hR hscope h htoken).bind fun _ _ hnext => ih hnext htokens

end Machine

/-- Tokens have related values in two scopes, unless an operand stops the first run. -/
theorem corresponds_evaluateTokens (hR : IsRespected R) (hscope : scope.IsLike other)
    (hvalues : ∀ token ∈ tokens, ∀ operand, token.operand? = some operand →
      Corresponds stops R (operand.value scope) (operand.value other)) :
    Corresponds stops R (evaluateTokens scope tokens) (evaluateTokens other tokens) :=
  (corresponds_run hR hscope isLike_start hvalues).bind fun _ _ h => corresponds_finish hR hscope h

/-! ### Properties that operators keep -/

/-- A property of values that every operator keeps: the result has it if all operands have it. -/
def IsKept (P : Value → Prop) : Prop :=
  ∀ (nesting : Nat) (operator : Operator) (operands : List Value) (value : Value),
    (∀ a ∈ operands, P a) → operator.apply nesting operands = .ok value → P value

theorem forall₂_eq_and_iff {P : Value → Prop} :
    List.Forall₂ (fun a b => a = b ∧ P a) values others ↔
      values = others ∧ ∀ value ∈ values, P value := by
  induction values generalizing others with
  | nil => simp [eq_comm]
  | cons value values ih =>
    cases others with
    | nil => simp
    | cons found others => simp [ih, and_and_and_comm]

/-- A value with such a property is related to itself. -/
theorem IsKept.isRespected {P : Value → Prop} (h : IsKept P) :
    IsRespected fun a b => a = b ∧ P a := by
  intro nesting operator operands others hoperands
  obtain ⟨rfl, hall⟩ := (forall₂_eq_and_iff).1 hoperands
  exact .refl fun value hvalue => ⟨rfl, h nesting operator operands value hall hvalue⟩

/-- The value of tokens has every property that their operands have and that operators keep. -/
theorem IsKept.evaluateTokens {P : Value → Prop} {value : Value} (h : IsKept P)
    (hoperands : ∀ token ∈ tokens, ∀ operand, token.operand? = some operand →
      ∀ value, operand.value scope = .ok value → P value)
    (hvalue : Criteria.evaluateTokens scope tokens = .ok value) : P value := by
  have hself : Related (fun a b => a = b ∧ P a) (Criteria.evaluateTokens scope tokens)
      (Criteria.evaluateTokens scope tokens) :=
    corresponds_evaluateTokens h.isRespected ⟨rfl, rfl⟩ fun token htoken operand hoperand =>
      .refl fun found hfound => ⟨rfl, hoperands token htoken operand hoperand found hfound⟩
  rw [hvalue] at hself
  cases hself with
  | ok hboth => exact hboth.2

end Criteria
