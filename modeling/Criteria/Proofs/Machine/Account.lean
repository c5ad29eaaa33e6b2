import Mathlib.Logic.Relation
import Criteria.Proofs.Machine.Step

/-!
# The account of a run

An account goes with the machine from one move to the next. A move applies what waits on top or takes
a token, and the account notes every value that is pushed: the operand that it comes from, or what
was applied, and to which of the earlier values.

* `Account`: a machine with the tokens that it has taken and those that it has not, the values pushed
  so far, and which of these are on the stack;
* `Move`: the moves, in terms of what the machine does; `Reaches`: any number of moves;
* `reaches_of_run`, `reaches_of_finish`: the moves lead wherever a run and its end lead;
* `reaches_of_drain_error`: and to where draining fails.
-/

namespace Criteria

open Machine Outcome

/-- Where a value comes from: the operand that a token is, or something that waited and was applied to
earlier values, given by their numbers from left to right. -/
inductive Provenance
  | operand (token : Token)
  | result (top : Pending) (operands : List Nat)

/-- A value that has been pushed, with its source. -/
structure Entry where
  source : Provenance
  value : Value

/-- A machine on its way, with an account of it. The values are numbered from zero on in the order in
which they were pushed, and `stack` has the numbers of those on the stack, from the top down. -/
structure Account where
  machine : Machine
  entries : List Entry
  stack : List Nat
  read : List Token
  rest : List Token

namespace Account

/-- The account before the first token. -/
def start (tokens : List Token) : Account := ⟨Machine.start, [], [], [], tokens⟩

/-- Whether something on top is applied before the next token is taken, or before the end. -/
def due (rest : List Token) (unbalanced : List Int) : Pending → Except Fault Bool :=
  match rest with
  | [] => fun _ => .ok unbalanced.isEmpty
  | token :: _ =>
    match token.item with
    | .closing => toOpening
    | .operator symbol => before symbol
    | _ => fun _ => .ok false

/-- After what waited on top has been applied: the values that are gone were its operands. -/
def applied (account : Account) (top : Pending) (waiting : List Pending) (value : Value)
    (left : List Value) : Account :=
  let taken := account.machine.values.length - left.length
  { account with
    machine := ⟨value :: left, waiting, account.machine.unbalanced⟩
    entries := account.entries ++ [⟨.result top (account.stack.take taken).reverse, value⟩]
    stack := account.entries.length :: account.stack.drop taken }

/-- After a token that is an operand has been taken. -/
def pushed (account : Account) (token : Token) (rest : List Token) (value : Value) : Account where
  machine := account.machine.pushValue value
  entries := account.entries ++ [⟨.operand token, value⟩]
  stack := account.entries.length :: account.stack
  read := account.read ++ [token]
  rest := rest

/-- After a token that is no operand has been taken. -/
def passed (account : Account) (token : Token) (rest : List Token) (next : Machine) : Account :=
  { account with machine := next, read := account.read ++ [token], rest := rest }

end Account

/-- The moves of a machine with its account. -/
inductive Move (scope : Scope) : Account → Account → Prop
  /-- Apply what waits on top, if that is due. -/
  | apply {account : Account} {top : Pending} {waiting : List Pending} {value : Value}
      {left : List Value} (hpending : account.machine.pending = top :: waiting)
      (hdue : Account.due account.rest account.machine.unbalanced top = .ok true)
      (happly : applyPending scope top account.machine.values = .ok (value :: left)) :
      Move scope account (account.applied top waiting value left)
  /-- Take a token that is an operand. -/
  | push {account : Account} {token : Token} {rest : List Token} {operand : Operand} {value : Value}
      (hrest : account.rest = token :: rest) (hoperand : token.operand? = some operand)
      (hvalue : operand.value scope = .ok value) :
      Move scope account (account.pushed token rest value)
  /-- Take a token that is no operand, when nothing is due any more. -/
  | pass {account : Account} {token : Token} {rest : List Token} {next : Machine}
      (hrest : account.rest = token :: rest) (hoperand : token.operand? = none)
      (hdue : ∀ top ∈ account.machine.pending.head?,
        Account.due account.rest account.machine.unbalanced top = .ok false)
      (hstep : step scope account.machine token = .ok next) :
      Move scope account (account.passed token rest next)

/-- Any number of moves. -/
abbrev Reaches (scope : Scope) : Account → Account → Prop := Relation.ReflTransGen (Move scope)

namespace Account

variable {scope : Scope} {account later : Account} {machine next drained : Machine} {token : Token}
  {tokens rest : List Token} {test : Pending → Except Fault Bool} {fault : Fault}

/-- No move loses a token. -/
theorem read_append_rest (h : Reaches scope account later) :
    later.read ++ later.rest = account.read ++ account.rest := by
  induction h with
  | refl => rfl
  | tail _ hmove ih =>
    rw [← ih]
    cases hmove with
    | apply => rfl
    | push hrest | pass hrest =>
      rw [hrest]
      exact List.append_assoc _ _ _

/-! ### Moves lead wherever the machine leads -/

/-- Draining is a number of moves, if it is what is due. -/
theorem reaches_of_drain (hdue : due account.rest account.machine.unbalanced = test)
    (h : account.machine.drain scope test = .ok drained) :
    ∃ later, Reaches scope account later ∧ later.machine = drained ∧ later.read = account.read ∧
      later.rest = account.rest := by
  obtain ⟨⟨values, pending, unbalanced⟩, entries, stack, read, rest⟩ := account
  induction pending generalizing values entries stack with
  | nil =>
    cases h
    exact ⟨_, .refl, rfl, rfl, rfl⟩
  | cons top waiting ih =>
    rw [drain_cons] at h
    obtain ⟨passes, htest, hpasses⟩ := bind_eq_ok.1 h
    cases passes with
    | false =>
      cases hpasses
      exact ⟨_, .refl, rfl, rfl, rfl⟩
    | true =>
      rw [if_pos rfl] at hpasses
      obtain ⟨result, happly, hrest⟩ := bind_eq_ok.1 hpasses
      obtain ⟨value, left, rfl⟩ := applyPending_eq_ok happly
      obtain ⟨later, hreaches, hlater⟩ := ih _ _ _ hdue hrest
      exact ⟨later, .head (.apply rfl ((congrFun hdue top).trans htest) happly) hreaches, hlater⟩

/-- Draining fails, if it is what is due, where moves lead: the test of what is on top fails there, or
it passes the test and cannot be applied. -/
theorem reaches_of_drain_error (hdue : due account.rest account.machine.unbalanced = test)
    (h : account.machine.drain scope test = .error fault) :
    ∃ later top waiting, Reaches scope account later ∧ later.rest = account.rest ∧
      later.read = account.read ∧ later.machine.unbalanced = account.machine.unbalanced ∧
      later.machine.pending = top :: waiting ∧ top ∈ account.machine.pending ∧
      (test top = .error fault ∨
        test top = .ok true ∧ applyPending scope top later.machine.values = .error fault) := by
  obtain ⟨⟨values, pending, unbalanced⟩, entries, stack, read, rest⟩ := account
  induction pending generalizing values entries stack with
  | nil => cases h
  | cons top waiting ih =>
    rw [drain_cons] at h
    rcases bind_eq_error.1 h with htest | ⟨passes, htest, hpasses⟩
    · exact ⟨_, top, waiting, .refl, rfl, rfl, rfl, rfl, List.mem_cons_self, .inl htest⟩
    · cases passes with
      | false => cases hpasses
      | true =>
        rw [if_pos rfl] at hpasses
        rcases bind_eq_error.1 hpasses with happly | ⟨result, happly, hrest⟩
        · exact ⟨_, top, waiting, .refl, rfl, rfl, rfl, rfl, List.mem_cons_self, .inr ⟨htest, happly⟩⟩
        · obtain ⟨value, left, rfl⟩ := applyPending_eq_ok happly
          obtain ⟨later, other, others, hreaches, hlater⟩ := ih _ _ _ hdue hrest
          obtain ⟨hrest', hread, hunbalanced, hpending, hmem, hfails⟩ := hlater
          refine ⟨later, other, others, .head (.apply rfl ((congrFun hdue top).trans htest) happly)
            hreaches, hrest', hread, hunbalanced, hpending, List.mem_cons_of_mem _ hmem, hfails⟩

/-- A token is taken when nothing is due any more. -/
theorem reaches_of_pass (hrest : account.rest = token :: rest) (hoperand : token.operand? = none)
    (hdue : due account.rest account.machine.unbalanced = test)
    (hdrain : account.machine.drain scope test = .ok drained)
    (hstep : step scope drained token = .ok next) :
    ∃ later, Reaches scope account later ∧ later.machine = next ∧
      later.read = account.read ++ [token] ∧ later.rest = rest := by
  obtain ⟨between, hreaches, hmachine, hread, hrest'⟩ := reaches_of_drain hdue hdrain
  obtain ⟨-, -, hunbalanced, -, hhead⟩ := drain_eq_ok hdrain
  refine ⟨between.passed token rest next, hreaches.tail (.pass (hrest'.trans hrest) hoperand ?_ ?_),
    rfl, congrArg (· ++ [token]) hread, rfl⟩
  · intro top htop
    rw [hmachine] at htop
    rw [hrest', hmachine, hunbalanced, hdue]
    exact hhead top htop
  · rw [hmachine]
    exact hstep

/-- A step is a number of moves. -/
theorem reaches_of_step (hrest : account.rest = token :: rest)
    (hstep : step scope account.machine token = .ok next) :
    ∃ later, Reaches scope account later ∧ later.machine = next ∧
      later.read = account.read ++ [token] ∧ later.rest = rest := by
  have hdue : due account.rest account.machine.unbalanced = due (token :: rest) [] := by
    rw [hrest]
    rfl
  rcases token.item_cases with ⟨operand, hoperand⟩ | ⟨symbol, hitem⟩ | hitem | ⟨symbol, hitem⟩
  · rw [step_of_operand hoperand] at hstep
    obtain ⟨value, hvalue, hpush⟩ := bind_eq_ok.1 hstep
    cases hpush
    exact ⟨_, .single (.push hrest hoperand hvalue), rfl, rfl, rfl⟩
  · have hoperand : token.operand? = none := by rw [Token.operand?, hitem]
    have htest : due (token :: rest) [] = fun _ => .ok false := by simp only [due, hitem]
    exact reaches_of_pass hrest hoperand (hdue.trans htest) (drain_of_head fun _ _ => rfl) hstep
  · have hoperand : token.operand? = none := by rw [Token.operand?, hitem]
    have htest : due (token :: rest) [] = toOpening := by simp only [due, hitem]
    rw [step_of_closing hitem] at hstep
    obtain ⟨drained, hdrain, hclose⟩ := bind_eq_ok.1 hstep
    obtain ⟨-, -, -, -, hhead⟩ := drain_eq_ok hdrain
    refine reaches_of_pass hrest hoperand (hdue.trans htest) hdrain ?_
    rw [step_of_closing hitem, drain_of_head hhead]
    exact hclose
  · have hoperand : token.operand? = none := by rw [Token.operand?, hitem]
    have htest : due (token :: rest) [] = before symbol := by simp only [due, hitem]
    rw [step_of_operator hitem] at hstep
    obtain ⟨drained, hdrain, hpush⟩ := bind_eq_ok.1 hstep
    obtain ⟨-, -, -, -, hhead⟩ := drain_eq_ok hdrain
    refine reaches_of_pass hrest hoperand (hdue.trans htest) hdrain ?_
    rw [step_of_operator hitem, drain_of_head hhead]
    exact hpush

/-- A run is a number of moves. -/
theorem reaches_of_run (hrest : account.rest = tokens ++ rest)
    (hrun : run scope account.machine tokens = .ok next) :
    ∃ later, Reaches scope account later ∧ later.machine = next ∧
      later.read = account.read ++ tokens ∧ later.rest = rest := by
  induction tokens generalizing account with
  | nil =>
    cases hrun
    exact ⟨account, .refl, rfl, (List.append_nil _).symm, hrest⟩
  | cons token tokens ih =>
    obtain ⟨between, hstep, hnext⟩ := bind_eq_ok.1 hrun
    obtain ⟨middle, hfirst, rfl, hread, hmiddle⟩ := reaches_of_step hrest hstep
    obtain ⟨later, hsecond, hmachine, hlater, hlast⟩ := ih hmiddle hnext
    refine ⟨later, hfirst.trans hsecond, hmachine, ?_, hlast⟩
    rw [hlater, hread, List.append_assoc]
    rfl

/-- The end of a run is a number of moves, after which the value alone is left. -/
theorem reaches_of_finish {value : Value} (hrest : account.rest = [])
    (h : account.machine.finish scope = .ok value) :
    ∃ later, Reaches scope account later ∧ later.machine = ⟨[value], [], []⟩ ∧
      later.read = account.read ∧ later.rest = [] := by
  obtain ⟨hunbalanced, hdrain⟩ := finish_eq_ok h
  have hdue : due account.rest account.machine.unbalanced = toEnd := by
    rw [hrest, hunbalanced]
    rfl
  obtain ⟨later, hreaches, hmachine, hread, hlater⟩ := reaches_of_drain hdue hdrain
  exact ⟨later, hreaches, hmachine, hread, hlater.trans hrest⟩

end Account

end Criteria
