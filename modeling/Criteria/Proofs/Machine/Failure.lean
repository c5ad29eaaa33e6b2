import Criteria.Evaluate
import Criteria.Proofs.Machine.Origin

/-!
# Where an evaluation fails

* `Cause.symbol?`: the operator that a cause speaks of. Whatever an operator refuses, it refuses for
  a cause that speaks of itself (`symbol?_of_apply`);
* `Failure.IsOf`: a failure belongs to an operator that is a token, and stands at that token;
* `exists_isOf_of_interrupts`: an application that fails is such a failure;
* `finish_eq_failed`: at the end what still waits fails in the same way, or the number of values is
  wrong, and then the failure has no place;
* `evaluate_eq_failed`: so every failure of an evaluation names the operator at its place.
-/

namespace Criteria

open Machine Outcome

variable {operator : Operator} {operands : List Value} {cause : Cause} {failure : Failure}
  {a b : Value} {verb symbol : String} {nesting : Nat} {scope : Scope} {machine : Machine}
  {tokens : List Token} {token : Token} {values : List Value} {account : Account}

/-! ### Causes -/

/-- The verbs for what arithmetic operators do, with their symbols. -/
def verbs : List (String × String) :=
  [("add", "+"), ("subtract", "-"), ("multiply", "*"), ("divide", "/")]

/-- The symbol of the operator that a cause speaks of, perhaps by its verb. -/
def Cause.symbol? : Cause → Option String
  | .cannotCombine verb _ _ | .outOfRange verb => verbs.lookup verb
  | .cannotCompare _ _ symbol | .notACollection symbol _ => some symbol
  | .operandCount symbol _ _ | .operandsMissing symbol _ _ => some symbol
  | .notOneValue _ => none

theorem symbol?_of_arithmetic {combine : Number → Number → Option Number}
    (h : Value.arithmetic verb combine a b = .error cause) :
    cause.symbol? = verbs.lookup verb := by
  unfold Value.arithmetic at h
  split at h
  · split at h <;> cases h
    rfl
  · cases h
    rfl

theorem symbol?_of_ordering {ofNumbers : Number → Number → Bool} {ofTexts : Text → Text → Bool}
    (h : Value.ordering symbol ofNumbers ofTexts a b = .error cause) :
    cause.symbol? = some symbol := by
  unfold Value.ordering at h
  split at h
  · cases h
  · split at h <;> cases h
    rfl

theorem symbol?_of_contains (h : a.contains nesting b = .error cause) :
    cause.symbol? = some "contains" := by
  unfold Value.contains at h
  split at h <;> cases h
  rfl

/-- Only arithmetic, orderings and `contains` refuse operands, each with its own symbol or verb. -/
theorem symbol?_of_binary {operator : BinaryOperator}
    (h : operator.apply nesting a b = .error cause) :
    cause.symbol? = some operator.symbol := by
  cases operator with
  | add =>
    have hadd : a.add b = .error cause := h
    unfold Value.add at hadd
    split at hadd
    · cases hadd
    · exact symbol?_of_arithmetic hadd
  | subtract => exact symbol?_of_arithmetic h
  | multiply => exact symbol?_of_arithmetic h
  | divide =>
    have hdivide : a.divide b = .error cause := h
    exact symbol?_of_arithmetic hdivide
  | greater => exact symbol?_of_ordering h
  | less => exact symbol?_of_ordering h
  | contains => exact symbol?_of_contains h
  | _ => cases h

/-- What an operator refuses speaks of that operator. -/
theorem symbol?_of_apply (h : operator.apply nesting operands = .error cause) :
    cause.symbol? = some operator.symbol := by
  unfold Operator.apply at h
  split at h
  case h_1 => cases h
  case h_2 => exact symbol?_of_binary h
  case h_3 =>
    cases h
    rfl

/-! ### Failures of operators -/

theorem Operator.FailsFor.symbol?_eq (h : operator.FailsFor nesting cause) :
    cause.symbol? = some operator.symbol := by
  rcases h with ⟨found, -, rfl⟩ | ⟨operands, -, happly⟩
  · rfl
  · exact symbol?_of_apply happly

/-- A failure of the operator that a token is, for a cause of the operator and at the token. -/
structure Failure.IsOf (failure : Failure) (nesting : Nat) (operator : Operator) (token : Token) :
    Prop where
  item : token.item = .operator operator.symbol
  cause : operator.FailsFor nesting failure.cause
  operator : failure.operator = some operator.symbol
  tokenIndex : failure.tokenIndex = some token.index

/-- A failure without a place: no value is left, or several are. -/
structure Failure.IsFinal (failure : Failure) : Prop where
  operator : failure.operator = none
  tokenIndex : failure.tokenIndex = none
  cause : ∃ count, count ≠ 1 ∧ failure.cause = .notOneValue count

namespace Machine

/-- What interrupts a run as a failure is an operator among the tokens, never a lookup. -/
theorem exists_isOf_of_interrupts (h : Interrupts scope tokens (.failed failure)) :
    failure.expression = some scope.expression ∧
      ∃ token ∈ tokens, ∃ operator, failure.IsOf scope.nesting operator token := by
  cases h with
  | lookup _ _ _ _ _ path hitem h =>
    rcases Value.resolve_eq_error h with ⟨limit, actual, hfault⟩ | ⟨numeral, hfault⟩
    · cases hfault
    · cases hfault
  | application account hreaches token hmem operator hitem waiting hpending hdue h =>
    obtain ⟨cause, hcause, hfault⟩ := applyPending_waiting_eq_error h
    cases hfault
    have htoken := mem_of_reaches hreaches (List.mem_append_left _ hmem)
    exact ⟨rfl, token, htoken, operator, hitem, hcause, rfl, rfl⟩

/-! ### The run and its end -/

/-- Another number of values than one has no place. -/
theorem onlyValue_eq_failed (h : onlyValue scope values = .error (.failed failure)) :
    failure.expression = some scope.expression ∧ failure.IsFinal := by
  unfold onlyValue at h
  split at h
  case h_1 => cases h
  case h_2 hlength =>
    cases h
    refine ⟨rfl, rfl, rfl, values.length, fun hone => ?_, rfl⟩
    obtain ⟨value, rfl⟩ := List.length_eq_one_iff.1 hone
    exact hlength value rfl

/-- At the end an operator fails that still waits, or the number of values is wrong. -/
theorem finish_eq_failed (htokens : ∀ token ∈ tokens, token.item.IsRegistered)
    (hreaches : Reaches scope (.start tokens) account)
    (hfrom : account.machine.IsFrom account.read) (hrest : account.rest = [])
    (hfinish : account.machine.finish scope = .error (.failed failure)) :
    Interrupts scope tokens (.failed failure) ∨
      failure.expression = some scope.expression ∧ failure.IsFinal := by
  unfold finish at hfinish
  split at hfinish
  case isFalse => cases hfinish
  case isTrue hrecords =>
    have hdue : Account.due account.rest account.machine.unbalanced = toEnd := by
      rw [hrest, Account.due, hrecords]
      rfl
    rcases bind_eq_error.1 hfinish with hdrain | ⟨drained, -, hvalue⟩
    · have hpasses (top : Pending) : toEnd top ≠ .error (.failed failure) := by rintro ⟨⟩
      refine .inl (interrupts_of_drain htokens hreaches hfrom hdue
        (fun top _ hsymbol => ⟨hpasses top, fun _ values happly => ?_⟩)
        (fun operator index => hpasses (operator.waiting index)) hdrain)
      -- a parenthesis has no operation, which is a fault of its own
      rw [applyPending, hsymbol] at happly
      cases happly
    · exact .inr (onlyValue_eq_failed hvalue)

end Machine

theorem evaluateTokens_eq_failed (htokens : ∀ token ∈ tokens, token.item.IsRegistered)
    (h : evaluateTokens scope tokens = .error (.failed failure)) :
    failure.expression = some scope.expression ∧
      (failure.IsFinal ∨ ∃ token ∈ tokens, ∃ operator, failure.IsOf scope.nesting operator token) := by
  have hcases : Interrupts scope tokens (.failed failure) ∨
      failure.expression = some scope.expression ∧ failure.IsFinal := by
    rcases bind_eq_error.1 h with hrun | ⟨machine, hrun, hfinish⟩
    · exact .inl (interrupts_of_run htokens hrun)
    · have hstart : (Account.start tokens).rest = tokens ++ [] := (List.append_nil _).symm
      obtain ⟨account, hreaches, rfl, hread, hrest⟩ := Account.reaches_of_run hstart hrun
      have hfrom := (isFrom_start tokens).run (fun _ hmem => hmem) hrun
      exact finish_eq_failed htokens hreaches (hread ▸ hfrom) hrest hfinish
  rcases hcases with hinterrupts | ⟨hexpression, hfinal⟩
  · obtain ⟨hexpression, hof⟩ := exists_isOf_of_interrupts hinterrupts
    exact ⟨hexpression, .inr hof⟩
  · exact ⟨hexpression, .inl hfinal⟩

/-- Cutting an expression into tokens does not fail as an operator does. -/
theorem tokenize_ne_failed {limits : Limits} {expression : String} :
    tokenize limits expression ≠ .error (.failed failure) := by
  intro h
  rcases bind_eq_error.1 h with hlength | ⟨-, -, hrest⟩
  · unfold Limits.checkLength at hlength
    split at hlength <;> cases hlength
  · rcases bind_eq_error.1 hrest with hcount | ⟨-, -, hclassify⟩
    · unfold Limits.checkTokens at hcount
      split at hcount <;> cases hcount
    · obtain ⟨piece, -, numeral, -, hfault⟩ := Token.classifyFrom_eq_error hclassify
      cases hfault

/-- **A failure names the operator at its place.** A failed evaluation tells the expression and the
operator that the cause speaks of. Either it has neither an operator nor a place, as the expression
leaves no value or several; or its place is that of a token that is the operator, which has too few
values there or refuses its operands. -/
theorem evaluate_eq_failed {limits : Limits} {data : Value} {expression : String}
    (h : evaluate nesting limits data expression = .error (.failed failure)) :
    failure.expression = some expression ∧ failure.operator = failure.cause.symbol? ∧
      (failure.IsFinal ∨
        ∃ (tokens : List Token) (place : Nat) (token : Token) (operator : Operator),
          tokenize limits expression = .ok tokens ∧ tokens[place]? = some token ∧
            failure.tokenIndex = some (place : Int) ∧ failure.IsOf nesting operator token) := by
  rcases bind_eq_error.1 h with htokenize | ⟨tokens, htokenize, hevaluate⟩
  · exact absurd htokenize tokenize_ne_failed
  · have hclassify := classifyFrom_of_tokenize htokenize
    have htokens := Token.isRegistered_of_classifyFrom hclassify
    obtain ⟨hexpression, hfinal | ⟨token, hmem, operator, hof⟩⟩ :=
      evaluateTokens_eq_failed htokens hevaluate
    · obtain ⟨count, -, hcause⟩ := hfinal.cause
      refine ⟨hexpression, ?_, .inl hfinal⟩
      rw [hfinal.operator, hcause]
      rfl
    · obtain ⟨place, hplace⟩ := List.mem_iff_getElem?.1 hmem
      have hindex := Token.index_of_getElem? hclassify hplace
      rw [Nat.zero_add] at hindex
      refine ⟨hexpression, ?_, .inr ⟨tokens, place, token, operator, htokenize, hplace, ?_, hof⟩⟩
      · rw [hof.operator, hof.cause.symbol?_eq]
      · rw [hof.tokenIndex, hindex]

/-- In `2 * (1 + 'a')` the sum fails, at the fifth token. -/
theorem evaluate_eq_failed_sum :
    let failure : Failure := ⟨.cannotCombine "add" .number .string, some "+", some 4,
      some "2 * (1 + 'a')"⟩
    evaluate 1000 .standard .undefined "2 * (1 + 'a')" = .error (.failed failure) ∧
      ¬failure.IsFinal ∧ failure.operator = failure.cause.symbol? := by
  intro failure
  have h : evaluate 1000 .standard .undefined "2 * (1 + 'a')" = .error (.failed failure) := rfl
  obtain ⟨-, hsymbol, -⟩ := evaluate_eq_failed h
  have hplace : ¬failure.IsFinal := fun hfinal => nomatch hfinal.operator
  exact ⟨h, hplace, hsymbol⟩

end Criteria
