import Criteria.Evaluate
import Criteria.Proofs.Machine.Balance

/-!
# Expressions with unbalanced parentheses

An expression whose parentheses are unbalanced never has a value. Its parentheses are reported as
unbalanced when all its tokens have been taken, so whatever fails before that is reported instead
(`evaluate_of_unpaired`): a numeral that is too long, a path that cannot be followed, or an operator
that cannot be applied, of which `('a' * 2))` is an instance.
-/

namespace Criteria

open Machine Outcome Parenthesis

variable {nesting : Nat} {limits : Limits} {data : Value} {expression : String}

/-! ### Taking all tokens -/

/-- The indexes of the parentheses of an expression that have no partner. -/
def unpairedPlaces (expression : String) : List Int :=
  (unpaired (Piece.parentheses 0 (pieces expression.toList))).map Parenthesis.index

/-- The machine after all tokens of an expression have been taken. -/
def takeTokens (nesting : Nat) (limits : Limits) (data : Value) (expression : String) :
    Except Fault Machine := do
  let tokens ← tokenize limits expression
  start.run ⟨nesting, data, limits, expression⟩ tokens

theorem evaluate_eq_finish (nesting : Nat) (limits : Limits) (data : Value) (expression : String) :
    evaluate nesting limits data expression =
      takeTokens nesting limits data expression >>= finish ⟨nesting, data, limits, expression⟩ := by
  rw [takeTokens, bind_assoc]
  rfl

/-- A fault before all tokens of an expression have been taken: of a numeral among its pieces, or on
behalf of one of its tokens. -/
inductive Forestalls (nesting : Nat) (limits : Limits) (data : Value) (expression : String) :
    Fault → Prop
  | numeral (piece : List Char) (hmem : piece ∈ pieces expression.toList)
      (numeral : Numeral.TooLong) (h : Literal.read? piece = some (.error numeral)) :
      Forestalls nesting limits data expression (.numeralTooLong numeral)
  | interruption (tokens : List Token) (htokens : tokenize limits expression = .ok tokens)
      (fault : Fault) (h : Interrupts ⟨nesting, data, limits, expression⟩ tokens fault) :
      Forestalls nesting limits data expression fault

theorem Forestalls.ne_unbalanced {fault : Fault} (h : Forestalls nesting limits data expression fault)
    (indexes : List Int) (text : String) : fault ≠ .unbalanced indexes text := by
  cases h with
  | numeral piece hmem numeral h => rintro ⟨⟩
  | interruption tokens htokens _ h => exact h.ne_unbalanced indexes text

theorem takeTokens_eq_ok {machine : Machine}
    (h : takeTokens nesting limits data expression = .ok machine) :
    machine.unbalanced = unpairedPlaces expression := by
  obtain ⟨tokens, htokens, hrun⟩ := bind_eq_ok.1 h
  have hclassify := classifyFrom_of_tokenize htokens
  rw [unbalanced_of_run (Token.isRegistered_of_classifyFrom hclassify)
    (Token.nodup_index_of_classifyFrom hclassify) hrun, parentheses_of_classifyFrom hclassify]
  rfl

theorem takeTokens_eq_error {fault : Fault} (hadmits : limits.Admits expression)
    (h : takeTokens nesting limits data expression = .error fault) :
    Forestalls nesting limits data expression fault := by
  rcases bind_eq_error.1 h with htokens | ⟨tokens, htokens, hrun⟩
  · rw [tokenize_of_admits hadmits] at htokens
    obtain ⟨piece, hmem, numeral, hread, rfl⟩ := Token.classifyFrom_eq_error htokens
    exact .numeral piece hmem numeral hread
  · have hregistered := Token.isRegistered_of_classifyFrom (classifyFrom_of_tokenize htokens)
    exact .interruption tokens htokens fault (interrupts_of_run hregistered hrun)

/-- **Unbalanced parentheses are reported when all tokens have been taken.** An expression within the
limits of length and of tokens that has unbalanced parentheses has no value. It is reported as
unbalanced, with the parentheses that have no partner, exactly if all its tokens can be taken.
Otherwise the first fault of a numeral, a lookup or an operator is reported. -/
theorem evaluate_of_unpaired (nesting : Nat) (limits : Limits) (data : Value) (expression : String)
    (hlength : limits.checkLength expression = .ok ())
    (hcount : limits.checkTokens (pieces expression.toList).length = .ok ())
    (hunpaired : unpairedPlaces expression ≠ []) :
    (∀ value, evaluate nesting limits data expression ≠ .ok value) ∧
    (evaluate nesting limits data expression =
        .error (.unbalanced (unpairedPlaces expression) expression) ↔
      ∃ machine, takeTokens nesting limits data expression = .ok machine) ∧
    ∀ fault, takeTokens nesting limits data expression = .error fault →
      evaluate nesting limits data expression = .error fault ∧
        Forestalls nesting limits data expression fault := by
  rw [evaluate_eq_finish]
  cases htake : takeTokens nesting limits data expression with
  | ok machine =>
    have hrecords := takeTokens_eq_ok htake
    have hfinish : finish ⟨nesting, data, limits, expression⟩ machine =
        .error (.unbalanced (unpairedPlaces expression) expression) :=
      finish_eq_unbalanced_iff.2 ⟨hrecords ▸ hunpaired, hrecords.symm, rfl⟩
    rw [ok_bind, hfinish]
    refine ⟨?_, ⟨fun _ => ⟨machine, rfl⟩, fun _ => rfl⟩, ?_⟩
    · rintro value ⟨⟩
    · rintro fault ⟨⟩
  | error fault =>
    have hforestalls := takeTokens_eq_error ⟨hlength, hcount⟩ htake
    rw [error_bind]
    refine ⟨?_, ⟨fun h => ?_, ?_⟩, ?_⟩
    · rintro value ⟨⟩
    · cases h
      exact absurd rfl (hforestalls.ne_unbalanced _ _)
    · rintro ⟨machine, ⟨⟩⟩
    · rintro other ⟨⟩
      exact ⟨rfl, hforestalls⟩

/-- In `2 * (1 + 3))` nothing fails before the last parenthesis, which is reported. -/
theorem evaluate_of_unpaired_sum :
    Limits.standard.checkLength "2 * (1 + 3))" = .ok () ∧
      Limits.standard.checkTokens (pieces "2 * (1 + 3))".toList).length = .ok () ∧
        unpairedPlaces "2 * (1 + 3))" ≠ [] ∧
          evaluate 1000 .standard .null "2 * (1 + 3))" = .error (.unbalanced [7] "2 * (1 + 3))") := by
  have hlength : Limits.standard.checkLength "2 * (1 + 3))" = .ok () := rfl
  have hcount : Limits.standard.checkTokens (pieces "2 * (1 + 3))".toList).length = .ok () := rfl
  have hplaces : unpairedPlaces "2 * (1 + 3))" = [7] := rfl
  have hunpaired : unpairedPlaces "2 * (1 + 3))" ≠ [] := by
    rw [hplaces]
    decide
  have hreport := (evaluate_of_unpaired 1000 .standard .null _ hlength hcount hunpaired).2.1.2 ⟨_, rfl⟩
  rw [hplaces] at hreport
  exact ⟨hlength, hcount, hunpaired, hreport⟩

/-- In `('a' * 2))` the product fails before the last parenthesis is taken. -/
theorem evaluate_unbalanced_product :
    Limits.standard.checkLength "('a' * 2))" = .ok () ∧
      Limits.standard.checkTokens (pieces "('a' * 2))".toList).length = .ok () ∧
        unpairedPlaces "('a' * 2))" = [5] ∧
          evaluate 1000 .standard .null "('a' * 2))" =
            .error (.failed ⟨.cannotCombine "multiply" .string .number, some "*", some 2,
              some "('a' * 2))"⟩) :=
  ⟨rfl, rfl, rfl, rfl⟩

end Criteria
