import Criteria.Proofs.Machine.Account
import Criteria.Proofs.Machine.Parentheses
import Criteria.Proofs.Token

/-!
# Where a fault of a run comes from

Whatever waits is a token that has been taken, with its symbol and its place (`IsFrom`). So a run on
classified tokens fails only on behalf of one of them, at a machine that its moves lead to: a path that
is next cannot be followed, or an operator that is due cannot be applied to the values that are there
(`Interrupts`, `interrupts_of_run`).
-/

namespace Criteria

open Machine Outcome

variable {scope : Scope} {machine next drained : Machine} {token : Token}
  {tokens rest : List Token} {test : Pending → Except Fault Bool} {fault : Fault}

/-- What waits after a token has been taken: a parenthesis that it opens, or its operator. -/
def Token.pending? (token : Token) : Option Pending :=
  match token.item with
  | .opening symbol => some ⟨symbol, token.index, true⟩
  | .operator symbol => some ⟨symbol, token.index, false⟩
  | _ => none

/-- A fault of following a path or of applying an operator, where moves have led: the path is that of
the next token, and the operator waits on top and is due to be applied to the values that are there. -/
inductive Interrupts (scope : Scope) (tokens : List Token) (fault : Fault) : Prop
  | lookup (account : Account) (hreaches : Reaches scope (.start tokens) account) (token : Token)
      (rest : List Token) (hrest : account.rest = token :: rest) (path : String)
      (hitem : token.item = .path path)
      (h : scope.data.resolve path.toList (some scope.limits.maxPathDepth) = .error fault)
  | application (account : Account) (hreaches : Reaches scope (.start tokens) account) (token : Token)
      (hmem : token ∈ account.read) (operator : Operator)
      (hitem : token.item = .operator operator.symbol) (waiting : List Pending)
      (hpending : account.machine.pending = operator.waiting token.index :: waiting)
      (hdue : Account.due account.rest account.machine.unbalanced (operator.waiting token.index) =
        .ok true)
      (h : applyPending scope (operator.waiting token.index) account.machine.values = .error fault)

/-- Neither a lookup nor an application reports parentheses. -/
theorem Interrupts.ne_unbalanced (h : Interrupts scope tokens fault) (indexes : List Int)
    (text : String) : fault ≠ .unbalanced indexes text := by
  rintro rfl
  cases h with
  | lookup _ _ _ _ _ path hitem h =>
    rcases Value.resolve_eq_error h with ⟨limit, actual, hfault⟩ | ⟨numeral, hfault⟩ <;> cases hfault
  | application _ _ _ _ _ _ _ _ _ h => exact applyPending_ne_unbalanced indexes text h

namespace Machine

/-- Everything that waits comes from one of the tokens. -/
def IsFrom (machine : Machine) (tokens : List Token) : Prop :=
  ∀ top ∈ machine.pending, ∃ token ∈ tokens, token.pending? = some top

theorem isFrom_start (tokens : List Token) : start.IsFrom tokens := by
  intro top htop
  cases htop

namespace IsFrom

theorem mono {others : List Token} (h : machine.IsFrom tokens)
    (hsub : ∀ token ∈ tokens, token ∈ others) : machine.IsFrom others := by
  intro top htop
  obtain ⟨token, hmem, hpending⟩ := h top htop
  exact ⟨token, hsub token hmem, hpending⟩

theorem drain (h : machine.IsFrom tokens) (hdrain : machine.drain scope test = .ok drained) :
    drained.IsFrom tokens := by
  obtain ⟨applied, hpending, -, -, -⟩ := drain_eq_ok hdrain
  intro top htop
  exact h top (hpending ▸ List.mem_append_right applied htop)

theorem close {index : Int} (h : machine.IsFrom tokens) (hclose : machine.close index = .ok next) :
    next.IsFrom tokens := by
  obtain ⟨values, _ | ⟨opening, rest⟩, unbalanced⟩ := machine
  · cases hclose
    exact h
  · obtain ⟨struck, -, hnext⟩ := bind_eq_ok.1 hclose
    cases hnext
    exact fun top htop => h top (List.mem_cons_of_mem _ htop)

theorem push {top : Pending} (h : machine.IsFrom tokens) (hmem : token ∈ tokens)
    (htop : token.pending? = some top) : (machine.push top).IsFrom tokens := by
  intro other hother
  rcases List.mem_cons.1 hother with rfl | hother
  · exact ⟨token, hmem, htop⟩
  · exact h other hother

theorem step (h : machine.IsFrom tokens) (hmem : token ∈ tokens)
    (hstep : step scope machine token = .ok next) : next.IsFrom tokens := by
  rcases step_cases hstep with ⟨symbol, hitem, rfl⟩ | ⟨-, drained, hdrain, hclose⟩ |
    ⟨symbol, hitem, drained, hdrain, rfl⟩ | ⟨value, rfl, -⟩
  · exact h.push hmem (by rw [Token.pending?, hitem])
  · exact (h.drain hdrain).close hclose
  · exact (h.drain hdrain).push hmem (by rw [Token.pending?, hitem])
  · exact h

theorem run (h : machine.IsFrom tokens) (hrest : ∀ token ∈ rest, token ∈ tokens)
    (hrun : machine.run scope rest = .ok next) : next.IsFrom tokens := by
  induction rest generalizing machine with
  | nil =>
    cases hrun
    exact h
  | cons token rest ih =>
    obtain ⟨between, hstep, hnext⟩ := bind_eq_ok.1 hrun
    have hbetween := h.step (hrest token List.mem_cons_self) hstep
    exact ih hbetween (fun other hother => hrest other (List.mem_cons_of_mem _ hother)) hnext

/-- Where the tokens are registered, an opening parenthesis waits or a registered operator. -/
theorem cases (h : machine.IsFrom tokens) (htokens : ∀ token ∈ tokens, token.item.IsRegistered)
    {top : Pending} (htop : top ∈ machine.pending) :
    (top.isOpening = true ∧ top.symbol = "(") ∨ ∃ token ∈ tokens, ∃ operator : Operator,
      token.item = .operator operator.symbol ∧ top = operator.waiting token.index := by
  obtain ⟨token, hmem, hpending⟩ := h top htop
  have hregistered := htokens token hmem
  unfold Token.pending? at hpending
  split at hpending
  case h_1 symbol hitem =>
    cases hpending
    rw [hitem] at hregistered
    exact Or.inl ⟨rfl, hregistered⟩
  case h_2 symbol hitem =>
    cases hpending
    rw [hitem] at hregistered
    obtain ⟨operator, rfl⟩ := hregistered
    exact Or.inr ⟨token, hmem, operator, hitem, rfl⟩
  case h_3 => cases hpending

end IsFrom

end Machine

/-! ### Where moves lead -/

section Account

variable {account : Account} {back : List Token} {strays : List Int}

theorem mem_of_reaches (hreaches : Reaches scope (.start tokens) account)
    (hmem : token ∈ account.read ++ account.rest) : token ∈ tokens := by
  rw [Account.read_append_rest hreaches] at hmem
  exact hmem

/-- If draining is what is due, and neither its test fails nor a parenthesis that passes it, it fails
only where an operator cannot be applied. -/
theorem interrupts_of_drain (htokens : ∀ token ∈ tokens, token.item.IsRegistered)
    (hreaches : Reaches scope (.start tokens) account)
    (hfrom : account.machine.IsFrom account.read)
    (hdue : Account.due account.rest account.machine.unbalanced = test)
    (hopening : ∀ top : Pending, top.isOpening = true → top.symbol = "(" → test top ≠ .error fault ∧
      (test top = .ok true → ∀ values, applyPending scope top values ≠ .error fault))
    (hwaiting : ∀ (operator : Operator) (index : Int), test (operator.waiting index) ≠ .error fault)
    (hdrain : account.machine.drain scope test = .error fault) : Interrupts scope tokens fault := by
  obtain ⟨later, top, waiting, hlater, hrest, hread, hunbalanced, hpending, htop, hfails⟩ :=
    Account.reaches_of_drain_error hdue hdrain
  have hregistered : ∀ token ∈ account.read, token.item.IsRegistered := fun token hmem =>
    htokens token (mem_of_reaches hreaches (List.mem_append_left _ hmem))
  rcases hfrom.cases hregistered htop with ⟨hisOpening, hsymbol⟩ | ⟨token, hmem, operator, hitem, rfl⟩
  · obtain ⟨htest, happly⟩ := hopening top hisOpening hsymbol
    rcases hfails with hfails | ⟨hpasses, hfails⟩
    · exact absurd hfails htest
    · exact absurd hfails (happly hpasses _)
  · rcases hfails with hfails | ⟨hpasses, hfails⟩
    · exact absurd hfails (hwaiting operator token.index)
    · refine .application later (hreaches.trans hlater) token (hread ▸ hmem) operator hitem waiting
        hpending ?_ hfails
      rw [hrest, hunbalanced, hdue]
      exact hpasses

/-- A parenthesis can always be closed, so nothing but an operator that is applied before it fails. -/
theorem interrupts_of_closing (htokens : ∀ token ∈ tokens, token.item.IsRegistered)
    (hreaches : Reaches scope (.start tokens) account)
    (hfrom : account.machine.IsFrom account.read)
    (hstrays : account.machine.HasStrays strays) (hrest : account.rest = token :: back)
    (hitem : token.item = .closing)
    (hstep : step scope account.machine token = .error fault) : Interrupts scope tokens fault := by
  rw [step_of_closing hitem] at hstep
  rcases bind_eq_error.1 hstep with hdrain | ⟨drained, hdrain, hclose⟩
  · have hdue : Account.due account.rest account.machine.unbalanced = toOpening := by
      rw [hrest]
      simp only [Account.due, hitem]
    have hpasses (top : Pending) : toOpening top ≠ .error fault := by rintro ⟨⟩
    refine interrupts_of_drain htokens hreaches hfrom hdue (fun top htop _ => ⟨hpasses top, ?_⟩)
      (fun operator index => hpasses (operator.waiting index)) hdrain
    rw [toOpening, htop]
    rintro ⟨⟩
  · -- what is left begins with a parenthesis, and its record is there
    obtain ⟨more, hdrained⟩ := hstrays.drain hdrain
    obtain ⟨-, -, -, -, hhead⟩ := drain_toOpening_eq_ok hdrain
    obtain ⟨values, _ | ⟨top, rest⟩, unbalanced⟩ := drained
    · cases hclose
    · obtain ⟨struck, hstruck, -⟩ := hdrained.close (hhead top rfl) token.index
      rw [hstruck] at hclose
      cases hclose

/-- An operator can always be put off, so nothing but an operator that is applied before it fails. -/
theorem interrupts_of_operator (htokens : ∀ token ∈ tokens, token.item.IsRegistered)
    (hreaches : Reaches scope (.start tokens) account)
    (hfrom : account.machine.IsFrom account.read) (hrest : account.rest = token :: back)
    {operator : Operator} (hitem : token.item = .operator operator.symbol)
    (hstep : step scope account.machine token = .error fault) : Interrupts scope tokens fault := by
  rw [step_of_operator hitem] at hstep
  rcases bind_eq_error.1 hstep with hdrain | ⟨drained, -, hpush⟩
  · have hdue : Account.due account.rest account.machine.unbalanced = before operator.symbol := by
      rw [hrest]
      simp only [Account.due, hitem]
    refine interrupts_of_drain htokens hreaches hfrom hdue (fun top _ hsymbol => ?_)
      (fun waiting index => ?_) hdrain
    · rw [before, hsymbol, hasPrecedence_opening]
      constructor <;> rintro ⟨⟩
    · rw [before, show (waiting.waiting index).symbol = waiting.symbol from rfl,
        hasPrecedence_symbol]
      rintro ⟨⟩
  · cases hpush

/-- The next token is taken with a fault only on behalf of a token. -/
theorem interrupts_of_step (htokens : ∀ token ∈ tokens, token.item.IsRegistered)
    (hreaches : Reaches scope (.start tokens) account)
    (hfrom : account.machine.IsFrom account.read)
    (hstrays : account.machine.HasStrays strays) (hrest : account.rest = token :: back)
    (hstep : step scope account.machine token = .error fault) : Interrupts scope tokens fault := by
  cases hitem : token.item with
  | opening symbol =>
    rw [step_of_opening hitem] at hstep
    cases hstep
  | closing => exact interrupts_of_closing htokens hreaches hfrom hstrays hrest hitem hstep
  | operator symbol =>
    have hregistered := htokens token (mem_of_reaches hreaches (hrest ▸ by simp))
    rw [hitem] at hregistered
    obtain ⟨operator, rfl⟩ := hregistered
    exact interrupts_of_operator htokens hreaches hfrom hrest hitem hstep
  | literal value =>
    rw [step_of_literal hitem] at hstep
    cases hstep
  | path path =>
    rw [step_of_path hitem] at hstep
    rcases bind_eq_error.1 hstep with hresolve | ⟨value, -, hpush⟩
    · exact .lookup account hreaches token back hrest path hitem hresolve
    · cases hpush

/-- Taking all tokens that are left fails only on behalf of one of the tokens. -/
theorem interrupts_of_rest (htokens : ∀ token ∈ tokens, token.item.IsRegistered)
    (hreaches : Reaches scope (.start tokens) account)
    (hfrom : account.machine.IsFrom account.read)
    (hstrays : account.machine.HasStrays strays) (hrest : account.rest = back)
    (hrun : account.machine.run scope back = .error fault) : Interrupts scope tokens fault := by
  induction back generalizing account strays with
  | nil => cases hrun
  | cons token back ih =>
    rcases bind_eq_error.1 hrun with hstep | ⟨next, hstep, hnext⟩
    · exact interrupts_of_step htokens hreaches hfrom hstrays hrest hstep
    · obtain ⟨later, hlater, rfl, hread, hback⟩ := Account.reaches_of_step hrest hstep
      obtain ⟨more, hmore⟩ := hstrays.step hstep
      have hnow : account.machine.IsFrom later.read :=
        hfrom.mono fun token hmem => hread ▸ List.mem_append_left _ hmem
      exact ih (hreaches.trans hlater) (hnow.step (hread ▸ by simp) hstep) hmore hback hnext

/-- A run fails only on behalf of one of its tokens. -/
theorem interrupts_of_run (htokens : ∀ token ∈ tokens, token.item.IsRegistered)
    (hrun : start.run scope tokens = .error fault) : Interrupts scope tokens fault :=
  @interrupts_of_rest scope tokens fault (.start tokens) tokens [] htokens .refl (isFrom_start _)
    hasStrays_start rfl hrun

end Account

end Criteria
