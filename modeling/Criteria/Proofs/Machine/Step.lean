import Criteria.Proofs.Expression.Basic
import Criteria.Proofs.Outcome

/-!
# What a step does

* `popOperands_of_le`: where there are as many values as an operator has operands, taking them never
  meets an empty stack;
* `Operator.FailsFor`: why an operator fails, and `applyPending_waiting_eq_error`: one that waits
  fails at its place;
* `drain_eq_ok`: draining applies a part from the top of what is pending, all of which passes the
  test, and stops before something that does not; the records of parentheses stay as they are;
* `drain_eq_error`: draining fails only where the test fails or where an application does;
* `step_cases`: the four things that a step can do;
* `finish_eq_ok`, `finish_eq_unbalanced_iff`: when the end gives a value, and when it reports records.
-/

namespace Criteria

/-- The operand that a token is. -/
def Token.operand? (token : Token) : Option Operand :=
  match token.item with
  | .literal value => some (.literal value)
  | .path path => some (.path path)
  | _ => none

theorem Token.item_of_operand? {token : Token} {operand : Operand}
    (h : token.operand? = some operand) : token.item = operand.item := by
  unfold Token.operand? at h
  split at h
  case h_1 hitem =>
    cases h
    exact hitem
  case h_2 hitem =>
    cases h
    exact hitem
  case h_3 => cases h

/-- A token is an operand, a parenthesis or an operator. -/
theorem Token.item_cases (token : Token) :
    (∃ operand, token.operand? = some operand) ∨ (∃ symbol, token.item = .opening symbol) ∨
      token.item = .closing ∨ ∃ symbol, token.item = .operator symbol := by
  unfold Token.operand?
  cases token.item with
  | opening symbol => exact .inr (.inl ⟨symbol, rfl⟩)
  | closing => exact .inr (.inr (.inl rfl))
  | operator symbol => exact .inr (.inr (.inr ⟨symbol, rfl⟩))
  | literal value => exact .inl ⟨.literal value, rfl⟩
  | path path => exact .inl ⟨.path path, rfl⟩

/-- An operator fails for a cause: there are too few values, or it refuses its operands. -/
def Operator.FailsFor (nesting : Nat) (operator : Operator) (cause : Cause) : Prop :=
  (∃ found < operator.arity, cause = .operandsMissing operator.symbol operator.arity found) ∨
    ∃ operands : List Value, operands.length = operator.arity ∧
      operator.apply nesting operands = .error cause

namespace Machine

open Outcome

variable {scope : Scope} {test : Pending → Except Fault Bool} {machine next drained : Machine}
  {token : Token} {values : List Value} {pending rest : List Pending} {unbalanced : List Int}

/-! ### Operands -/

/-- Enough values can be taken. -/
theorem popOperands_of_le {operator : Operator} (h : operator.arity ≤ values.length) :
    ∃ operands rest, popOperands operator.arity values = .ok (operands, rest) ∧
      values = operands.reverse ++ rest ∧ operands.length = operator.arity := by
  cases operator with
  | not =>
    rcases values with _ | ⟨b, rest⟩
    · cases h
    · exact ⟨[b], rest, rfl, rfl, rfl⟩
  | binary operator =>
    rcases values with _ | ⟨b, _ | ⟨a, rest⟩⟩
    · cases h
    · cases Nat.le_of_succ_le_succ h
    · exact ⟨[a, b], rest, rfl, rfl, rfl⟩

theorem popOperands_of_lt {operator : Operator} (h : values.length < operator.arity) :
    popOperands operator.arity values = .error .emptyStack := by
  cases operator with
  | not =>
    rcases values with _ | ⟨b, rest⟩
    · rfl
    · cases Nat.lt_of_succ_lt_succ h
  | binary operator =>
    rcases values with _ | ⟨b, _ | ⟨a, rest⟩⟩
    · rfl
    · rfl
    · cases Nat.lt_of_succ_lt_succ (Nat.lt_of_succ_lt_succ h)

/-- Values that can be taken can be taken above other ones. -/
theorem popOperands_append {arity : Nat} {operands below left : List Value}
    (h : popOperands arity values = .ok (operands, left)) :
    popOperands arity (values ++ below) = .ok (operands, left ++ below) := by
  unfold popOperands at h ⊢
  obtain ⟨⟨b, others⟩, hb, hothers⟩ := bind_eq_ok.1 h
  rcases values with _ | ⟨b, values⟩ <;> cases hb
  -- the value on top is the same in both, and a second one is taken only if there are two operands
  change (if arity = 1 then _ else _) = _ at hothers
  show (if arity = 1 then _ else _) = _
  by_cases hone : arity = 1
  · rw [if_pos hone] at hothers ⊢
    cases hothers
    rfl
  · rw [if_neg hone] at hothers ⊢
    obtain ⟨⟨a, rest⟩, ha, hrest⟩ := bind_eq_ok.1 hothers
    rcases others with _ | ⟨a, others⟩ <;> cases ha
    cases hrest
    rfl

/-- Applying an operator takes its operands from the top, in the order in which they were pushed, and
pushes the result. -/
theorem applyPending_waiting_eq_ok {operator : Operator} {index : Int} {applied : List Value}
    (h : applyPending scope (operator.waiting index) values = .ok applied) :
    ∃ operands left value, values = operands.reverse ++ left ∧
      operands.length = operator.arity ∧ operator.apply scope.nesting operands = .ok value ∧
        applied = value :: left := by
  rw [applyPending_waiting] at h
  split at h
  case isTrue => cases h
  case isFalse hlength =>
    obtain ⟨operands, left, hoperands, hvalues, harity⟩ :=
      popOperands_of_le (Nat.le_of_not_lt hlength)
    rw [hoperands, ok_bind] at h
    obtain ⟨value, hvalue, happlied⟩ := bind_eq_ok.1 h
    cases happlied
    refine ⟨operands, left, value, hvalues, harity, ?_, rfl⟩
    cases happly : operator.apply scope.nesting operands with
    | error cause =>
      rw [happly] at hvalue
      cases hvalue
    | ok result =>
      rw [happly] at hvalue
      cases hvalue
      rfl

/-- Whatever is applied pushes a value. -/
theorem applyPending_eq_ok {top : Pending} {applied : List Value}
    (h : applyPending scope top values = .ok applied) : ∃ value left, applied = value :: left := by
  unfold applyPending at h
  split at h
  · cases h
  · split at h
    · cases h
    · obtain ⟨taken, -, hresult⟩ := bind_eq_ok.1 h
      obtain ⟨value, -, happlied⟩ := bind_eq_ok.1 hresult
      cases happlied
      exact ⟨value, taken.2, rfl⟩

/-- An operator that waits and cannot be applied fails at its place. -/
theorem applyPending_waiting_eq_error {operator : Operator} {index : Int} {fault : Fault}
    (h : applyPending scope (operator.waiting index) values = .error fault) :
    ∃ cause, operator.FailsFor scope.nesting cause ∧
      fault = failAt scope (operator.waiting index) cause := by
  rw [applyPending_waiting] at h
  split at h
  case isTrue hlength =>
    cases h
    exact ⟨_, .inl ⟨values.length, hlength, rfl⟩, rfl⟩
  case isFalse hlength =>
    obtain ⟨operands, left, hoperands, -, harity⟩ := popOperands_of_le (Nat.le_of_not_lt hlength)
    rw [hoperands, ok_bind] at h
    rcases bind_eq_error.1 h with hresult | ⟨result, -, hresult⟩
    · cases happly : operator.apply scope.nesting operands with
      | ok result =>
        rw [happly] at hresult
        cases hresult
      | error cause =>
        rw [happly] at hresult
        cases hresult
        exact ⟨cause, .inr ⟨operands, harity, happly⟩, rfl⟩
    · cases hresult

/-- Only an unknown symbol, or a failure at the place of the operator, keeps it from being applied. -/
theorem applyPending_eq_error {top : Pending} {fault : Fault}
    (h : applyPending scope top values = .error fault) :
    fault = .unknownSymbol top.symbol ∨ ∃ cause, fault = failAt scope top cause := by
  obtain ⟨symbol, index, isOpening⟩ := top
  cases hfound : Operator.ofSymbol? symbol with
  | none =>
    rw [applyPending, hfound] at h
    cases h
    exact .inl rfl
  | some operator =>
    obtain rfl := Operator.symbol_of_ofSymbol? hfound
    have hwaiting : applyPending scope (operator.waiting index) values = .error fault := h
    obtain ⟨cause, -, hfault⟩ := applyPending_waiting_eq_error hwaiting
    exact .inr ⟨cause, hfault⟩

/-! ### Draining -/

/-- What draining leaves. -/
theorem drain_eq_ok (h : machine.drain scope test = .ok drained) :
    ∃ applied, machine.pending = applied ++ drained.pending ∧
      drained.unbalanced = machine.unbalanced ∧ (∀ top ∈ applied, test top = .ok true) ∧
      ∀ top ∈ drained.pending.head?, test top = .ok false := by
  obtain ⟨values, pending, unbalanced⟩ := machine
  induction pending generalizing values with
  | nil =>
    cases h
    exact ⟨[], rfl, rfl, by simp, by simp⟩
  | cons top rest ih =>
    rw [drain_cons] at h
    obtain ⟨passes, htest, hpasses⟩ := bind_eq_ok.1 h
    cases passes with
    | false =>
      cases hpasses
      exact ⟨[], rfl, rfl, by simp, by simpa using htest⟩
    | true =>
      rw [if_pos rfl] at hpasses
      obtain ⟨result, -, hrest⟩ := bind_eq_ok.1 hpasses
      obtain ⟨applied, hpending, hunbalanced, happlied, hhead⟩ := ih result hrest
      refine ⟨top :: applied, congrArg (top :: ·) hpending, hunbalanced, ?_, hhead⟩
      intro other hother
      rcases List.mem_cons.1 hother with rfl | hother
      · exact htest
      · exact happlied other hother

/-- Draining fails where the test fails, or where something that passes it cannot be applied. -/
theorem drain_eq_error {fault : Fault} (h : machine.drain scope test = .error fault) :
    ∃ top ∈ machine.pending, test top = .error fault ∨
      test top = .ok true ∧ ∃ values, applyPending scope top values = .error fault := by
  obtain ⟨values, pending, unbalanced⟩ := machine
  induction pending generalizing values with
  | nil => cases h
  | cons top rest ih =>
    rw [drain_cons] at h
    rcases bind_eq_error.1 h with htest | ⟨passes, htest, hpasses⟩
    · exact ⟨top, List.mem_cons_self, Or.inl htest⟩
    · cases passes with
      | false => cases hpasses
      | true =>
        rw [if_pos rfl] at hpasses
        rcases bind_eq_error.1 hpasses with happly | ⟨applied, -, hrest⟩
        · exact ⟨top, List.mem_cons_self, Or.inr ⟨htest, values, happly⟩⟩
        · obtain ⟨other, hother, hfails⟩ := ih applied hrest
          exact ⟨other, List.mem_cons_of_mem _ hother, hfails⟩

/-- What draining leaves is left alone when it is drained again. -/
theorem drain_of_head (h : ∀ top ∈ machine.pending.head?, test top = .ok false) :
    machine.drain scope test = .ok machine := by
  obtain ⟨values, _ | ⟨top, rest⟩, unbalanced⟩ := machine
  · rfl
  · exact drain_of_false (h top rfl)

/-- Two tests drain alike that agree on what is pending. -/
theorem drain_congr {other : Pending → Except Fault Bool}
    (h : ∀ top ∈ machine.pending, test top = other top) :
    machine.drain scope test = machine.drain scope other := by
  obtain ⟨values, pending, unbalanced⟩ := machine
  induction pending generalizing values with
  | nil => rfl
  | cons top rest ih =>
    have htop : test top = other top := h top List.mem_cons_self
    have hrest := fun result => ih result fun top htop => h top (List.mem_cons_of_mem _ htop)
    simp only [drain_cons, htop, hrest]

/-- Draining down to the nearest opening parenthesis applies operators only, and stops at one. -/
theorem drain_toOpening_eq_ok (h : machine.drain scope toOpening = .ok drained) :
    ∃ applied, machine.pending = applied ++ drained.pending ∧
      drained.unbalanced = machine.unbalanced ∧ (∀ top ∈ applied, top.isOpening = false) ∧
      ∀ top ∈ drained.pending.head?, top.isOpening = true := by
  obtain ⟨applied, hpending, hunbalanced, happlied, hhead⟩ := drain_eq_ok h
  refine ⟨applied, hpending, hunbalanced, fun top htop => ?_, fun top htop => ?_⟩
  · simpa [toOpening] using happlied top htop
  · simpa [toOpening] using hhead top htop

/-! ### Steps -/

theorem step_of_opening {symbol : String} (h : token.item = .opening symbol) :
    step scope machine token =
      .ok ((machine.push ⟨symbol, token.index, true⟩).record token.index) := by
  rw [step, h]

theorem step_of_closing (h : token.item = .closing) :
    step scope machine token =
      machine.drain scope toOpening >>= fun drained => drained.close token.index := by
  rw [step, h]

theorem step_of_operator {symbol : String} (h : token.item = .operator symbol) :
    step scope machine token =
      machine.drain scope (before symbol) >>= fun drained =>
        .ok (drained.push ⟨symbol, token.index, false⟩) := by
  rw [step, h]
  rfl

theorem step_of_literal {value : Value} (h : token.item = .literal value) :
    step scope machine token = .ok (machine.pushValue value) := by
  rw [step, h]

theorem step_of_path {path : String} (h : token.item = .path path) :
    step scope machine token =
      scope.data.resolve path.toList (some scope.limits.maxPathDepth) >>= fun value =>
        .ok (machine.pushValue value) := by
  rw [step, h]
  rfl

/-- An operand pushes its value. -/
theorem step_of_operand {operand : Operand} (h : token.operand? = some operand) :
    step scope machine token =
      operand.value scope >>= fun value => .ok (machine.pushValue value) := by
  have hitem := Token.item_of_operand? h
  cases operand with
  | literal value => exact step_of_literal hitem
  | path path => exact step_of_path hitem

/-- What a step does that does not fail: a parenthesis is opened or closed, an operator waits after
those that come before it, or an operand pushes a value, the same one in every machine. -/
theorem step_cases (h : step scope machine token = .ok next) :
    (∃ symbol, token.item = .opening symbol ∧
      next = (machine.push ⟨symbol, token.index, true⟩).record token.index) ∨
    (token.item = .closing ∧ ∃ drained, machine.drain scope toOpening = .ok drained ∧
      drained.close token.index = .ok next) ∨
    (∃ symbol, token.item = .operator symbol ∧ ∃ drained,
      machine.drain scope (before symbol) = .ok drained ∧
        next = drained.push ⟨symbol, token.index, false⟩) ∨
    ∃ value, next = machine.pushValue value ∧
      ∀ other : Machine, step scope other token = .ok (other.pushValue value) := by
  cases hitem : token.item with
  | opening symbol =>
    rw [step_of_opening hitem] at h
    cases h
    exact Or.inl ⟨symbol, rfl, rfl⟩
  | closing =>
    rw [step_of_closing hitem] at h
    exact Or.inr (Or.inl ⟨rfl, bind_eq_ok.1 h⟩)
  | operator symbol =>
    rw [step_of_operator hitem] at h
    obtain ⟨drained, hdrain, hpush⟩ := bind_eq_ok.1 h
    cases hpush
    exact Or.inr (Or.inr (Or.inl ⟨symbol, rfl, drained, hdrain, rfl⟩))
  | literal value =>
    rw [step_of_literal hitem] at h
    cases h
    exact Or.inr (Or.inr (Or.inr ⟨value, rfl, fun _ => step_of_literal hitem⟩))
  | path path =>
    rw [step_of_path hitem] at h
    obtain ⟨value, hvalue, hpush⟩ := bind_eq_ok.1 h
    cases hpush
    refine Or.inr (Or.inr (Or.inr ⟨value, rfl, fun other => ?_⟩))
    rw [step_of_path hitem, hvalue, ok_bind]

/-! ### The end -/

theorem onlyValue_eq_ok {value : Value} (h : onlyValue scope values = .ok value) :
    values = [value] := by
  unfold onlyValue at h
  split at h
  · cases h
    rfl
  · cases h

/-- A machine that ends with a value has no records, and nothing but the value is left. -/
theorem finish_eq_ok {value : Value} (h : machine.finish scope = .ok value) :
    machine.unbalanced = [] ∧ machine.drain scope toEnd = .ok ⟨[value], [], []⟩ := by
  unfold finish at h
  split at h
  case isFalse => cases h
  case isTrue hempty =>
    obtain ⟨drained, hdrain, hvalue⟩ := bind_eq_ok.1 h
    obtain ⟨-, -, hrecords, -, hhead⟩ := drain_eq_ok hdrain
    rw [List.isEmpty_iff.1 hempty] at hrecords
    refine ⟨List.isEmpty_iff.1 hempty, ?_⟩
    obtain ⟨values, _ | ⟨top, rest⟩, unbalanced⟩ := drained
    · cases onlyValue_eq_ok hvalue
      cases hrecords
      exact hdrain
    · cases hhead top rfl

theorem applyPending_ne_unbalanced {top : Pending} (indexes : List Int) (text : String) :
    applyPending scope top values ≠ .error (.unbalanced indexes text) := by
  intro h
  rcases applyPending_eq_error h with hfault | ⟨cause, hfault⟩ <;> cases hfault

/-- What waits at the end may fail to be applied, but only records are reported as unbalanced. -/
theorem finish_eq_unbalanced_iff {indexes : List Int} {text : String} :
    machine.finish scope = .error (.unbalanced indexes text) ↔
      machine.unbalanced ≠ [] ∧ indexes = machine.unbalanced ∧ text = scope.expression := by
  unfold finish
  split
  case isFalse hrecords =>
    have hne : machine.unbalanced ≠ [] := by simpa using hrecords
    simp [hne, eq_comm]
  case isTrue hrecords =>
    refine iff_of_false (fun h => ?_) fun h => h.1 (List.isEmpty_iff.1 hrecords)
    rcases bind_eq_error.1 h with hdrain | ⟨drained, -, hvalue⟩
    · obtain ⟨top, -, hfails⟩ := drain_eq_error hdrain
      rcases hfails with hfails | ⟨-, values, hfails⟩
      · cases hfails
      · exact applyPending_ne_unbalanced indexes text hfails
    · unfold onlyValue at hvalue
      split at hvalue <;> cases hvalue

end Machine

end Criteria
