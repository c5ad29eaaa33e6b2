import Criteria.Proofs.Machine.Account
import Criteria.Proofs.Machine.Origin

/-!
# Nothing is lost and nothing is used twice

Wherever a run gets, with the account that goes with it:

* every operator that has been taken waits or has been applied, once;
* every value that has been pushed is on the stack or has been consumed by one application, once;
* there are as many values as operands have been taken, less the operators with two operands that
  have been applied.

`IsExact` says this, and that the account is true; `IsExact.move` is the step and `isExact_of_reaches`
the run. So an expression with a value applies each of its operators once, consumes every other value
once, and has one operand more than operators between two operands (`conserved`).
-/

namespace Criteria

open Machine Outcome

variable {scope : Scope} {tokens : List Token}

/-! ### Counting -/

/-- The operator that a token is, as it waits. -/
def Token.operator? (token : Token) : Option Pending :=
  match token.item with
  | .operator symbol => some ⟨symbol, token.index, false⟩
  | _ => none

/-- Whether a token is an operand. -/
def Token.isOperand (token : Token) : Bool := token.operand?.isSome

/-- Whether an operator that waits takes two operands. -/
def Pending.isBinary (top : Pending) : Bool :=
  (Operator.ofSymbol? top.symbol).any fun operator => operator.arity == 2

/-- The operators among what waits. -/
def Machine.operators (machine : Machine) : List Pending :=
  machine.pending.filter fun top => !top.isOpening

/-- The token that a value comes from as an operand. -/
def Provenance.token? : Provenance → Option Token
  | .operand token => some token
  | .result _ _ => none

/-- The operator that a value is the result of. -/
def Provenance.top? : Provenance → Option Pending
  | .operand _ => none
  | .result top _ => some top

/-- The values that a value has been made of. -/
def Provenance.operands : Provenance → List Nat
  | .operand _ => []
  | .result _ operands => operands

/-- An operator takes one operand, or two. -/
theorem arity_isBinary (operator : Operator) (index : Int) :
    operator.arity = 1 + if (operator.waiting index).isBinary then 1 else 0 := by
  rw [Pending.isBinary, show (operator.waiting index).symbol = operator.symbol from rfl,
    Operator.ofSymbol?_symbol]
  cases operator <;> rfl

theorem operator?_of_operand {token : Token} (h : token.isOperand = true) :
    token.operator? = none := by
  unfold Token.isOperand Token.operand? at h
  unfold Token.operator?
  split at h <;> simp_all

namespace Account

/-- The operators that have been applied, in their order. -/
def applications (account : Account) : List Pending :=
  account.entries.filterMap fun entry => entry.source.top?

/-- The numbers of the values that have been consumed. -/
def consumed (account : Account) : List Nat :=
  account.entries.flatMap fun entry => entry.source.operands

/-- The value of a number. -/
def value? (account : Account) (number : Nat) : Option Value :=
  account.entries[number]?.map Entry.value

/-- An entry says where its value comes from: it is what an operand stands for, or an operator has
given it for the values of its operands. -/
def IsTrue (scope : Scope) (account : Account) (entry : Entry) : Prop :=
  match entry.source with
  | .operand token =>
    ∃ operand, token.operand? = some operand ∧ operand.value scope = .ok entry.value
  | .result top operands =>
    ∃ (operator : Operator) (values : List Value), top.symbol = operator.symbol ∧
      operands.map account.value? = values.map some ∧
      operator.apply scope.nesting values = .ok entry.value

/-- The account is true of what has been done with the tokens so far. -/
structure IsExact (scope : Scope) (tokens : List Token) (account : Account) : Prop where
  tokens_eq : tokens = account.read ++ account.rest
  isFrom : account.machine.IsFrom tokens
  hasStrays : ∃ strays, account.machine.HasStrays strays
  isTrue : ∀ entry ∈ account.entries, account.IsTrue scope entry
  values : account.stack.map account.value? = account.machine.values.map some
  operands : account.entries.filterMap (fun entry => entry.source.token?) =
    account.read.filter Token.isOperand
  operators : (account.read.filterMap Token.operator?).Perm
    (account.machine.operators ++ account.applications)
  numbers : (account.stack ++ account.consumed).Perm (List.range account.entries.length)
  count : account.machine.values.length + account.applications.countP Pending.isBinary =
    account.read.countP Token.isOperand

theorem isExact_start (scope : Scope) (tokens : List Token) :
    (start tokens).IsExact scope tokens where
  tokens_eq := rfl
  isFrom := isFrom_start tokens
  hasStrays := ⟨[], hasStrays_start⟩
  isTrue := by simp [start]
  values := rfl
  operands := rfl
  operators := List.Perm.refl _
  numbers := List.Perm.refl _
  count := rfl

/-! ### Values keep their numbers -/

section Append

variable {account later : Account} {entry : Entry}

theorem value?_of_append (hentries : later.entries = account.entries ++ [entry]) {number : Nat}
    {value : Value} (h : account.value? number = some value) : later.value? number = some value := by
  obtain ⟨found, hfound, rfl⟩ := Option.map_eq_some_iff.1 h
  have hlt := (List.getElem?_eq_some_iff.1 hfound).1
  rw [value?, hentries, List.getElem?_append_left hlt, hfound]
  rfl

theorem map_value?_of_append (hentries : later.entries = account.entries ++ [entry])
    {numbers : List Nat} {values : List Value}
    (h : numbers.map account.value? = values.map some) :
    numbers.map later.value? = values.map some := by
  rw [← h]
  refine List.map_congr_left fun number hnumber => ?_
  have hmem : account.value? number ∈ values.map some := h ▸ List.mem_map_of_mem hnumber
  obtain ⟨value, -, hvalue⟩ := List.mem_map.1 hmem
  rw [value?_of_append hentries hvalue.symm, hvalue]

/-- The number of a value that has just been pushed. -/
theorem value?_length (hentries : later.entries = account.entries ++ [entry]) :
    later.value? account.entries.length = some entry.value := by
  rw [value?, hentries]
  simp

theorem applications_of_append (hentries : later.entries = account.entries ++ [entry]) :
    later.applications = account.applications ++ entry.source.top?.toList := by
  rw [applications, applications, hentries, List.filterMap_append]
  cases h : entry.source.top? <;> simp [h]

theorem consumed_of_append (hentries : later.entries = account.entries ++ [entry]) :
    later.consumed = account.consumed ++ entry.source.operands := by
  rw [consumed, consumed, hentries, List.flatMap_append, List.flatMap_singleton]

theorem IsTrue.append (hentries : later.entries = account.entries ++ [entry]) {other : Entry}
    (h : account.IsTrue scope other) : later.IsTrue scope other := by
  unfold IsTrue at h ⊢
  split at h
  case h_1 => exact h
  case h_2 =>
    obtain ⟨operator, values, hsymbol, hvalues, happly⟩ := h
    exact ⟨operator, values, hsymbol, map_value?_of_append hentries hvalues, happly⟩

/-- An entry that is true can be appended to others. -/
theorem isTrue_of_append (hentries : later.entries = account.entries ++ [entry])
    (h : ∀ other ∈ account.entries, account.IsTrue scope other) (hentry : later.IsTrue scope entry) :
    ∀ other ∈ later.entries, later.IsTrue scope other := by
  intro other hother
  rw [hentries] at hother
  rcases List.mem_append.1 hother with hother | hother
  · exact (h other hother).append hentries
  · rw [List.mem_singleton.1 hother]
    exact hentry

end Append

/-! ### Taking operands from the stack -/

/-- The numbers on top are those of the values on top. -/
theorem map_take_value? {account : Account} {front back : List Value}
    (h : account.stack.map account.value? = (front ++ back).map some) :
    (account.stack.take front.length).map account.value? = front.map some ∧
      (account.stack.drop front.length).map account.value? = back.map some := by
  rw [List.map_take, List.map_drop, h, List.map_append, ← List.length_map some]
  exact ⟨List.take_left, List.drop_left⟩

/-- Numbers that are taken from the stack are consumed, and a new one comes in their place. -/
theorem perm_range_of_taken {stack consumed : List Nat} {count : Nat}
    (h : (stack ++ consumed).Perm (List.range count)) (taken : Nat) :
    (count :: stack.drop taken ++ (consumed ++ (stack.take taken).reverse)).Perm
      (List.range (count + 1)) := by
  have hsplit : stack ++ consumed = stack.take taken ++ (stack.drop taken ++ consumed) := by
    rw [← List.append_assoc, List.take_append_drop]
  have hrest : (stack.drop taken ++ (consumed ++ (stack.take taken).reverse)).Perm
      (stack ++ consumed) := by
    rw [hsplit, ← List.append_assoc]
    exact List.perm_append_comm.trans ((List.reverse_perm _).append_right _)
  rw [List.range_succ]
  exact ((hrest.trans h).cons count).trans (List.perm_append_singleton _ _).symm

namespace IsExact

variable {account : Account}

/-! ### Applying what waits -/

/-- What is due is an operator. -/
theorem operator_of_due (h : account.IsExact scope tokens)
    (htokens : ∀ token ∈ tokens, token.item.IsRegistered) {top : Pending} {waiting : List Pending}
    (hpending : account.machine.pending = top :: waiting)
    (hdue : due account.rest account.machine.unbalanced top = .ok true) :
    ∃ (operator : Operator) (index : Int), top = operator.waiting index := by
  have htop : top ∈ account.machine.pending := by
    rw [hpending]
    exact List.mem_cons_self
  rcases h.isFrom.cases htokens htop with ⟨hopening, hsymbol⟩ | ⟨token, -, operator, -, hwaiting⟩
  · -- an opening parenthesis stops whatever is due before a token, and none waits at the end
    cases hrest : account.rest with
    | nil =>
      rw [hrest] at hdue
      obtain ⟨strays, hstrays⟩ := h.hasStrays
      have hempty : account.machine.unbalanced = [] := by simpa [due] using hdue
      have hnone := openings_eq_nil.1 (hstrays.eq_nil hempty).2 top htop
      rw [hopening] at hnone
      cases hnone
    | cons token rest =>
      rw [hrest] at hdue
      cases hitem : token.item <;> simp only [due, hitem] at hdue
      case closing =>
        rw [toOpening, hopening] at hdue
        cases hdue
      case operator symbol =>
        rw [before, hsymbol, hasPrecedence_opening] at hdue
        cases hdue
      all_goals cases hdue
  · exact ⟨operator, token.index, hwaiting⟩

/-- An application takes its operands from the top, and pushes a value of a new number. -/
theorem apply (h : account.IsExact scope tokens) {operator : Operator} {index : Int}
    {waiting : List Pending} {value : Value} {left : List Value}
    (hpending : account.machine.pending = operator.waiting index :: waiting)
    (happly : applyPending scope (operator.waiting index) account.machine.values =
      .ok (value :: left)) :
    (account.applied (operator.waiting index) waiting value left).IsExact scope tokens := by
  obtain ⟨operands, left', value', hvalues, harity, hresult, happlied⟩ :=
    applyPending_waiting_eq_ok happly
  cases happlied
  have htaken : account.machine.values.length - left.length = operator.arity := by
    rw [hvalues, List.length_append, List.length_reverse]
    omega
  have hentries : (account.applied (operator.waiting index) waiting value left).entries =
      account.entries ++ [⟨.result (operator.waiting index)
        (account.stack.take operator.arity).reverse, value⟩] := by
    rw [← htaken]
    rfl
  have hstack : (account.applied (operator.waiting index) waiting value left).stack =
      account.entries.length :: account.stack.drop operator.arity := by
    rw [← htaken]
    rfl
  have hsplit := h.values
  rw [hvalues] at hsplit
  obtain ⟨hoperands, hleft⟩ := map_take_value? hsplit
  rw [List.length_reverse, harity] at hoperands hleft
  have hoperators : account.machine.operators =
      operator.waiting index :: waiting.filter fun top => !top.isOpening := by
    rw [Machine.operators, hpending]
    rfl
  have happlications := applications_of_append hentries
  constructor
  case tokens_eq => exact h.tokens_eq
  case isFrom =>
    intro top htop
    exact h.isFrom top (hpending ▸ List.mem_cons_of_mem _ htop)
  case hasStrays =>
    -- it is an operator that waits no more, so the parentheses that wait stay the same
    obtain ⟨strays, hstrays⟩ := h.hasStrays
    refine ⟨strays, ?_⟩
    rw [HasStrays, hpending] at hstrays
    exact hstrays
  case isTrue =>
    refine isTrue_of_append hentries h.isTrue ⟨operator, operands, rfl, ?_, hresult⟩
    rw [List.map_reverse, map_value?_of_append hentries hoperands, ← List.map_reverse,
      List.reverse_reverse]
  case values =>
    rw [hstack]
    exact List.cons_eq_cons.2 ⟨value?_length hentries, map_value?_of_append hentries hleft⟩
  case operands =>
    rw [hentries, List.filterMap_append, h.operands]
    exact List.append_nil _
  case operators =>
    rw [happlications]
    refine h.operators.trans ?_
    rw [hoperators, List.cons_append, ← List.append_assoc]
    exact (List.perm_append_singleton _ _).symm
  case numbers =>
    rw [consumed_of_append hentries, hentries, hstack, List.length_append]
    exact perm_range_of_taken h.numbers operator.arity
  case count =>
    have hcount := h.count
    rw [hvalues, List.length_append, List.length_reverse, harity, arity_isBinary operator index]
      at hcount
    rw [happlications, List.countP_append]
    show left.length + 1 + (_ + [operator.waiting index].countP Pending.isBinary) =
      account.read.countP Token.isOperand
    rw [List.countP_singleton]
    omega

/-- An operand pushes its value, with a new number. -/
theorem push (h : account.IsExact scope tokens) {token : Token} {rest : List Token}
    {operand : Operand} {value : Value} (hrest : account.rest = token :: rest)
    (hoperand : token.operand? = some operand) (hvalue : operand.value scope = .ok value) :
    (account.pushed token rest value).IsExact scope tokens := by
  have hentries : (account.pushed token rest value).entries =
      account.entries ++ [⟨.operand token, value⟩] := rfl
  have happlications : (account.pushed token rest value).applications = account.applications :=
    (applications_of_append hentries).trans (List.append_nil _)
  have hconsumed : (account.pushed token rest value).consumed = account.consumed :=
    (consumed_of_append hentries).trans (List.append_nil _)
  have hread : (account.pushed token rest value).read = account.read ++ [token] := rfl
  have hisOperand : token.isOperand = true := by
    rw [Token.isOperand, hoperand]
    rfl
  constructor
  case isFrom => exact h.isFrom
  case hasStrays => exact h.hasStrays
  case isTrue => exact isTrue_of_append hentries h.isTrue ⟨operand, hoperand, hvalue⟩
  case tokens_eq =>
    rw [h.tokens_eq, hrest, hread, List.append_assoc]
    rfl
  case values =>
    exact List.cons_eq_cons.2 ⟨value?_length hentries, map_value?_of_append hentries h.values⟩
  case operands =>
    rw [hentries, List.filterMap_append, h.operands, hread, List.filter_append,
      List.filter_cons_of_pos hisOperand]
    rfl
  case operators =>
    rw [happlications, hread, List.filterMap_append,
      List.filterMap_cons_none (operator?_of_operand hisOperand), List.filterMap_nil,
      List.append_nil]
    exact h.operators
  case numbers =>
    have hnumbers := perm_range_of_taken h.numbers 0
    rw [List.drop_zero, List.take_zero, List.reverse_nil, List.append_nil] at hnumbers
    rw [hconsumed, hentries, List.length_append]
    exact hnumbers
  case count =>
    rw [happlications, hread, List.countP_append, List.countP_singleton, if_pos hisOperand,
      ← h.count]
    exact Nat.add_right_comm _ _ _

/-- A token that is no operand leaves the values as they are, and an operator waits from then on. -/
theorem machine_of_pass {machine next : Machine} {token : Token} {rest : List Token}
    (hoperand : token.operand? = none)
    (hdue : ∀ top ∈ machine.pending.head?,
      due (token :: rest) machine.unbalanced top = .ok false)
    (hstep : step scope machine token = .ok next) :
    next.values = machine.values ∧
      next.operators = token.operator?.toList ++ machine.operators := by
  unfold Token.operator?
  cases hitem : token.item with
  | opening symbol =>
    rw [step_of_opening hitem] at hstep
    cases hstep
    exact ⟨rfl, rfl⟩
  | closing =>
    rw [step_of_closing hitem, drain_of_head (by simpa only [due, hitem] using hdue), ok_bind]
      at hstep
    obtain ⟨values, _ | ⟨top, waiting⟩, unbalanced⟩ := machine
    · cases hstep
      exact ⟨rfl, rfl⟩
    · -- what is on top is the opening parenthesis, and no operator
      have htop : top.isOpening = true := by
        have h := hdue top rfl
        simpa only [due, hitem, toOpening, Except.ok.injEq, Bool.not_eq_eq_eq_not, Bool.not_false]
          using h
      obtain ⟨struck, -, hnext⟩ := bind_eq_ok.1 hstep
      cases hnext
      refine ⟨rfl, ?_⟩
      show waiting.filter (fun top => !top.isOpening) =
        (top :: waiting).filter fun top => !top.isOpening
      rw [List.filter_cons_of_neg (by rw [htop]; decide)]
  | operator symbol =>
    rw [step_of_operator hitem, drain_of_head (by simpa only [due, hitem] using hdue), ok_bind]
      at hstep
    cases hstep
    exact ⟨rfl, rfl⟩
  | literal value =>
    rw [Token.operand?, hitem] at hoperand
    cases hoperand
  | path path =>
    rw [Token.operand?, hitem] at hoperand
    cases hoperand

/-- A parenthesis or an operator leaves all values where they are. -/
theorem pass (h : account.IsExact scope tokens) {token : Token} {rest : List Token}
    {next : Machine} (hrest : account.rest = token :: rest) (hoperand : token.operand? = none)
    (hdue : ∀ top ∈ account.machine.pending.head?,
      due account.rest account.machine.unbalanced top = .ok false)
    (hstep : step scope account.machine token = .ok next) :
    (account.passed token rest next).IsExact scope tokens := by
  have hmem : token ∈ tokens := by
    rw [h.tokens_eq, hrest]
    exact List.mem_append_right _ List.mem_cons_self
  have hread : (account.passed token rest next).read = account.read ++ [token] := rfl
  have hisOperand : ¬ token.isOperand = true := by
    rw [Token.isOperand, hoperand]
    decide
  obtain ⟨hvalues, hoperators⟩ := machine_of_pass hoperand (hrest ▸ hdue) hstep
  constructor
  case isFrom => exact h.isFrom.step hmem hstep
  case isTrue => exact h.isTrue
  case numbers => exact h.numbers
  case tokens_eq =>
    rw [h.tokens_eq, hrest, hread, List.append_assoc]
    rfl
  case hasStrays =>
    obtain ⟨strays, hstrays⟩ := h.hasStrays
    obtain ⟨more, hmore⟩ := hstrays.step hstep
    exact ⟨_, hmore⟩
  case values =>
    show _ = next.values.map some
    rw [hvalues]
    exact h.values
  case operands =>
    rw [hread, List.filter_append, List.filter_cons_of_neg hisOperand]
    exact h.operands.trans (List.append_nil _).symm
  case operators =>
    have htoken : [token].filterMap Token.operator? = token.operator?.toList := by
      cases hoperator : token.operator? <;> simp [hoperator]
    show List.Perm _ (next.operators ++ account.applications)
    rw [hoperators, hread, List.filterMap_append, htoken, List.append_assoc]
    exact List.perm_append_comm.trans (h.operators.append_left _)
  case count =>
    show next.values.length + _ = _
    rw [hvalues, hread, List.countP_append, List.countP_singleton, if_neg hisOperand]
    exact h.count

/-- **A move keeps the account true.** -/
theorem move {later : Account} (h : account.IsExact scope tokens)
    (htokens : ∀ token ∈ tokens, token.item.IsRegistered) (hmove : Move scope account later) :
    later.IsExact scope tokens := by
  cases hmove with
  | apply hpending hdue happly =>
    obtain ⟨operator, index, rfl⟩ := h.operator_of_due htokens hpending hdue
    exact h.apply hpending happly
  | push hrest hoperand hvalue => exact h.push hrest hoperand hvalue
  | pass hrest hoperand hdue hstep => exact h.pass hrest hoperand hdue hstep

end IsExact

/-- The account is true wherever a run gets. -/
theorem isExact_of_reaches (htokens : ∀ token ∈ tokens, token.item.IsRegistered)
    {account : Account} (h : Reaches scope (start tokens) account) :
    account.IsExact scope tokens := by
  induction h with
  | refl => exact isExact_start scope tokens
  | tail _ hmove ih => exact ih.move htokens hmove

/-- An expression that has a value leaves an account without anything that waits or is left to read:
the value alone is on the stack. -/
theorem reaches_of_value {value : Value} (h : evaluateTokens scope tokens = .ok value) :
    ∃ account, Reaches scope (start tokens) account ∧ account.machine = ⟨[value], [], []⟩ ∧
      account.read = tokens ∧ account.rest = [] := by
  obtain ⟨machine, hrun, hfinish⟩ := bind_eq_ok.1 h
  have hstart : (start tokens).rest = tokens ++ [] := (List.append_nil _).symm
  obtain ⟨between, hfirst, rfl, hread, hrest⟩ := reaches_of_run hstart hrun
  obtain ⟨later, hsecond, hmachine, hlater, hlast⟩ := reaches_of_finish hrest hfinish
  exact ⟨later, hfirst.trans hsecond, hmachine, hlater.trans hread, hlast⟩

end Account

open Account

/-- **Operators and operands are conserved.** Wherever the machine gets with classified tokens, there
are as many values as operands have been taken, less the operators with two operands that have been
applied; every operator that has been taken waits or has been applied once; every operand that has
been taken has been pushed once; and every value that has been pushed is on the stack or has been
consumed once. It gets wherever a run on the first tokens leads. At a value, every operator has been
applied once, every other value has been consumed once, and there is one operand more than operators
with two operands. -/
theorem conserved (scope : Scope) (tokens : List Token)
    (hclassified : ∀ token ∈ tokens, token.IsClassified) :
    (∀ account, Reaches scope (Account.start tokens) account →
      tokens = account.read ++ account.rest ∧
      account.machine.values.length + account.applications.countP Pending.isBinary =
        account.read.countP Token.isOperand ∧
      (account.read.filterMap Token.operator?).Perm
        (account.machine.operators ++ account.applications) ∧
      account.entries.filterMap (fun entry => entry.source.token?) =
        account.read.filter Token.isOperand ∧
      account.stack.map account.value? = account.machine.values.map some ∧
      (account.stack ++ account.consumed).Perm (List.range account.entries.length) ∧
      ∀ entry ∈ account.entries, account.IsTrue scope entry) ∧
    (∀ front back machine, tokens = front ++ back →
      Machine.start.run scope front = .ok machine →
        ∃ account, Reaches scope (Account.start tokens) account ∧ account.machine = machine ∧
          account.read = front ∧ account.rest = back) ∧
    ∀ value, evaluateTokens scope tokens = .ok value →
      (∃ account number, Reaches scope (Account.start tokens) account ∧ account.rest = [] ∧
        (tokens.filterMap Token.operator?).Perm account.applications ∧
        account.stack = [number] ∧ account.value? number = some value ∧
        (number :: account.consumed).Perm (List.range account.entries.length)) ∧
      tokens.countP Token.isOperand =
        (tokens.filterMap Token.operator?).countP Pending.isBinary + 1 := by
  have htokens : ∀ token ∈ tokens, token.item.IsRegistered := fun token hmem =>
    (hclassified token hmem).isRegistered
  refine ⟨fun account h => ?_, fun front back machine hsplit hrun => ?_, fun value hvalue => ?_⟩
  · have hexact := isExact_of_reaches htokens h
    exact ⟨hexact.tokens_eq, hexact.count, hexact.operators, hexact.operands, hexact.values,
      hexact.numbers, hexact.isTrue⟩
  · have hstart : (Account.start tokens).rest = front ++ back := hsplit
    obtain ⟨account, hreaches, hmachine, hread, hrest⟩ := reaches_of_run hstart hrun
    exact ⟨account, hreaches, hmachine, hread, hrest⟩
  · obtain ⟨account, hreaches, hmachine, hread, hrest⟩ := reaches_of_value hvalue
    have hexact := isExact_of_reaches htokens hreaches
    have hnone : account.machine.operators = [] := by
      rw [hmachine]
      rfl
    have hoperators := hexact.operators
    rw [hread, hnone, List.nil_append] at hoperators
    -- the value alone is left, so there is one number on the stack, which is that of the value
    have hvalues := hexact.values
    rw [hmachine, List.map_cons, List.map_nil] at hvalues
    obtain ⟨number, hstack, hnumber⟩ := List.map_eq_singleton_iff.1 hvalues
    have hnumbers := hexact.numbers
    rw [hstack] at hnumbers
    refine ⟨⟨account, number, hreaches, hrest, hoperators, hstack, hnumber, hnumbers⟩, ?_⟩
    have hcount := hexact.count
    rw [hmachine, hread] at hcount
    rw [← hcount, hoperators.countP_eq]
    exact Nat.add_comm _ _

/-- In `7 - 2 * 3` there are three operands, and both operators are applied. -/
theorem conserved_difference :
    let tokens : List Token := [⟨.literal (.int 7), "7", 0⟩, ⟨.operator "-", "-", 1⟩,
      ⟨.literal (.int 2), "2", 2⟩, ⟨.operator "*", "*", 3⟩, ⟨.literal (.int 3), "3", 4⟩]
    let scope : Scope := ⟨1000, .null, .standard, ""⟩
    (∀ token ∈ tokens, token.IsClassified) ∧ evaluateTokens scope tokens = .ok (.int 1) ∧
      ∃ account number, Reaches scope (Account.start tokens) account ∧
        [⟨"-", 1, false⟩, ⟨"*", 3, false⟩].Perm account.applications ∧
        account.stack = [number] ∧ account.value? number = some (.int 1) ∧
        (number :: account.consumed).Perm (List.range account.entries.length) := by
  intro tokens scope
  have hclassify : Token.classifyFrom 0 [['7'], ['-'], ['2'], ['*'], ['3']] = .ok tokens := rfl
  have hclassified := Token.isClassified_of_classifyFrom hclassify
  have hvalue : evaluateTokens scope tokens = .ok (.int 1) := rfl
  obtain ⟨account, number, hreaches, -, hrest⟩ :=
    ((conserved scope tokens hclassified).2.2 _ hvalue).1
  exact ⟨hclassified, hvalue, account, number, hreaches, hrest⟩

end Criteria
