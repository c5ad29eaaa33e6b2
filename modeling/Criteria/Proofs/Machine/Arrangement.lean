import Mathlib.Data.List.TakeWhile
import Criteria.Proofs.Machine.Agreement
import Criteria.Proofs.Machine.Balance
import Criteria.Proofs.Machine.Conservation
import Criteria.Proofs.Machine.Soundness

/-!
# The order in which operators are applied

Which operator is applied when does not depend on any value: it can be read off the tokens. They can
be arranged in the order in which the machine uses them, and the values come afterwards.

* `Instruction`: what the machine does with its values; `performAll` does one after the other;
* `arrange`: the instructions for tokens. An operand stays where it is, an operator moves to the
  place where it is applied, a parenthesis is gone;
* `run_finish_eq_performAll`: if every parenthesis has a partner, the machine does what the arranged
  tokens say, with the same value or the same fault;
* `unpaired_of_value`: if there is a value, every parenthesis has a partner;
* `IsPostfix`: an operator stands directly behind its operands, which are given in full.
  `isPostfix_of_performAll`: instructions that leave one value behind are such an expression;
* `operands_arrange`, `operators_arrange`: operands stay in their order, and every operator is applied
  once.
-/

namespace Criteria

open Machine Outcome Parenthesis

variable {scope : Scope} {token : Token} {tokens : List Token} {values : List Value}
  {top : Pending} {pending waiting : List Pending} {unbalanced : List Int}
  {left : List Parenthesis}

/-! ### Instructions -/

/-- What the machine does with its values: it pushes that of an operand, or applies what waits. -/
inductive Instruction
  | push (operand : Operand)
  | apply (top : Pending)

namespace Instruction

/-- The values after an instruction. -/
def perform (scope : Scope) : Instruction → List Value → Except Fault (List Value)
  | .push operand, values => do return (← operand.value scope) :: values
  | .apply top, values => applyPending scope top values

/-- The values after instructions, one after the other. -/
def performAll (scope : Scope) : List Instruction → List Value → Except Fault (List Value)
  | [], values => .ok values
  | instruction :: code, values => do performAll scope code (← instruction.perform scope values)

/-- The operand that is pushed. -/
def operand? : Instruction → Option Operand
  | .push operand => some operand
  | .apply _ => none

/-- What is applied. -/
def top? : Instruction → Option Pending
  | .push _ => none
  | .apply top => some top

variable {instruction : Instruction} {code more : List Instruction}

@[simp] theorem performAll_nil : performAll scope [] values = .ok values := rfl

theorem performAll_cons :
    performAll scope (instruction :: code) values =
      instruction.perform scope values >>= performAll scope code := rfl

theorem performAll_append :
    performAll scope (code ++ more) values =
      performAll scope code values >>= performAll scope more := by
  induction code generalizing values with
  | nil => rfl
  | cons instruction code ih =>
    rw [List.cons_append, performAll_cons, performAll_cons, bind_assoc]
    congr 1
    funext next
    exact ih

end Instruction

open Instruction

/-! ### Arranging tokens -/

/-- How strongly a symbol binds; what is no operator does not bind at all. -/
def binding (symbol : String) : Nat :=
  match Operator.ofSymbol? symbol with
  | some operator => operator.precedence
  | none => 0

/-- Whether something that waits is an operator that is applied before the next one waits. -/
def Pending.precedes (next : String) (top : Pending) : Bool :=
  !top.isOpening && decide (binding next ≤ binding top.symbol)

/-- The instructions for tokens that are taken while something waits. -/
def arrange (waiting : List Pending) : List Token → List Instruction
  | [] => waiting.map .apply
  | token :: tokens =>
    match token.item with
    | .opening symbol => arrange (⟨symbol, token.index, true⟩ :: waiting) tokens
    | .closing =>
      (waiting.takeWhile fun top => !top.isOpening).map .apply ++
        arrange (waiting.dropWhile fun top => !top.isOpening).tail tokens
    | .operator symbol =>
      (waiting.takeWhile (Pending.precedes symbol)).map .apply ++
        arrange (⟨symbol, token.index, false⟩ :: waiting.dropWhile (Pending.precedes symbol)) tokens
    | .literal value => .push (.literal value) :: arrange waiting tokens
    | .path path => .push (.path path) :: arrange waiting tokens

section Arrange

variable {symbol : String}

theorem arrange_opening (h : token.item = .opening symbol) :
    arrange waiting (token :: tokens) =
      arrange (⟨symbol, token.index, true⟩ :: waiting) tokens := by
  simp only [arrange, h]

theorem arrange_closing (h : token.item = .closing) :
    arrange waiting (token :: tokens) =
      (waiting.takeWhile fun top => !top.isOpening).map .apply ++
        arrange (waiting.dropWhile fun top => !top.isOpening).tail tokens := by
  simp only [arrange, h]

theorem arrange_operator (h : token.item = .operator symbol) :
    arrange waiting (token :: tokens) =
      (waiting.takeWhile (Pending.precedes symbol)).map .apply ++
        arrange (⟨symbol, token.index, false⟩ :: waiting.dropWhile (Pending.precedes symbol))
          tokens := by
  simp only [arrange, h]

theorem arrange_operand {operand : Operand} (h : token.operand? = some operand) :
    arrange waiting (token :: tokens) = .push operand :: arrange waiting tokens := by
  have hitem := Token.item_of_operand? h
  cases operand <;> simp only [arrange, hitem, Operand.item]

end Arrange

/-! ### Draining -/

/-- Draining applies what passes the test, from the top down, and leaves the rest. -/
theorem drain_eq_performAll {test : Pending → Except Fault Bool} (passes : Pending → Bool)
    (h : ∀ top ∈ pending, test top = .ok (passes top)) :
    drain scope test ⟨values, pending, unbalanced⟩ =
      performAll scope ((pending.takeWhile passes).map .apply) values >>= fun applied =>
        .ok ⟨applied, pending.dropWhile passes, unbalanced⟩ := by
  induction pending generalizing values with
  | nil => rfl
  | cons top pending ih =>
    have htop := h top List.mem_cons_self
    cases hpasses : passes top with
    | false =>
      rw [drain_of_false (by rw [htop, hpasses])]
      simp [hpasses]
    | true =>
      rw [drain_of_true (by rw [htop, hpasses])]
      simp only [List.takeWhile_cons, List.dropWhile_cons, hpasses, if_true, List.map_cons,
        performAll_cons, bind_assoc]
      congr 1
      funext applied
      exact ih fun other hother => h other (List.mem_cons_of_mem _ hother)

/-- An operator drains what precedes it. -/
theorem before_eq_precedes (operator : Operator) (h : top.IsSound) :
    before operator.symbol top = .ok (top.precedes operator.symbol) := by
  cases h with
  | opening index => exact hasPrecedence_opening operator.symbol
  | waiting other index =>
    have hbinding : ∀ o : Operator, binding o.symbol = o.precedence := fun o => by
      rw [binding, Operator.ofSymbol?_symbol]
    rw [before, Pending.precedes, show (other.waiting index).symbol = other.symbol from rfl,
      hasPrecedence_symbol, hbinding, hbinding]
    rfl

/-- What holds for no opening parenthesis passes them all by. -/
theorem openings_dropWhile {passes : Pending → Bool}
    (h : ∀ top : Pending, passes top = true → top.isOpening = false) :
    openings (pending.dropWhile passes) = openings pending := by
  have hnone : openings (pending.takeWhile passes) = [] :=
    openings_eq_nil.2 fun top htop => h top (List.mem_takeWhile_imp htop)
  conv_rhs => rw [← List.takeWhile_append_dropWhile (p := passes) (l := pending)]
  rw [openings_append, hnone, List.nil_append]

theorem isOpening_of_precedes {next : String} (h : top.precedes next = true) :
    top.isOpening = false := by
  rw [Pending.precedes, Bool.and_eq_true, Bool.not_eq_true'] at h
  exact h.1

/-- Where a parenthesis is open there is a nearest one, above which operators wait. -/
theorem exists_opening {depth : Nat} (h : (openings pending).length = depth + 1) :
    ∃ opening waiting, pending.dropWhile (fun top => !top.isOpening) = opening :: waiting ∧
      opening.isOpening = true ∧ (openings waiting).length = depth := by
  have hdropped : openings (pending.dropWhile fun top => !top.isOpening) = openings pending :=
    openings_dropWhile fun top htop => by simpa using htop
  rw [← hdropped] at h
  cases hwaits : pending.dropWhile fun top => !top.isOpening with
  | nil =>
    rw [hwaits] at h
    cases h
  | cons opening waiting =>
    have hopening : opening.isOpening = true := by
      have hhead := List.head?_dropWhile_not (fun top : Pending => !top.isOpening) pending
      rw [hwaits] at hhead
      simpa using hhead
    rw [hwaits, openings_cons_of_true hopening] at h
    exact ⟨opening, waiting, rfl, hopening, Nat.succ.inj h⟩

theorem drain_toOpening_eq_performAll :
    drain scope toOpening ⟨values, pending, unbalanced⟩ =
      performAll scope ((pending.takeWhile fun top => !top.isOpening).map .apply) values >>=
        fun applied => .ok ⟨applied, pending.dropWhile fun top => !top.isOpening, unbalanced⟩ :=
  drain_eq_performAll _ fun _ _ => rfl

theorem drain_before_eq_performAll (operator : Operator) (h : ∀ top ∈ pending, top.IsSound) :
    drain scope (before operator.symbol) ⟨values, pending, unbalanced⟩ =
      performAll scope ((pending.takeWhile (Pending.precedes operator.symbol)).map .apply) values >>=
        fun applied =>
          .ok ⟨applied, pending.dropWhile (Pending.precedes operator.symbol), unbalanced⟩ :=
  drain_eq_performAll _ fun top htop => before_eq_precedes operator (h top htop)

/-- At the end everything that waits is applied. -/
theorem finish_eq_performAll (values : List Value) (pending : List Pending) :
    finish scope ⟨values, pending, []⟩ =
      performAll scope (pending.map .apply) values >>= onlyValue scope := by
  have hdrain : drain scope toEnd ⟨values, pending, []⟩ = _ :=
    drain_eq_performAll (fun _ => true) fun _ _ => rfl
  have htake : pending.takeWhile (fun _ => true) = pending := by simp
  show drain scope toEnd ⟨values, pending, []⟩ >>= (fun drained => onlyValue scope drained.values) = _
  rw [hdrain, htake, bind_assoc]
  rfl

/-! ### Open parentheses -/

/-- Only opening parentheses and registered operators wait, there are no records but those of the
parentheses, and of these there is a given number. -/
structure Machine.IsOpen (machine : Machine) (depth : Nat) : Prop where
  pending : ∀ top ∈ machine.pending, top.IsSound
  hasStrays : machine.HasStrays []
  depth_eq : (openings machine.pending).length = depth

namespace Machine.IsOpen

variable {depth : Nat}

theorem isOpen_start : start.IsOpen 0 where
  pending := by simp [start]
  hasStrays := hasStrays_start
  depth_eq := rfl

/-- Where no parenthesis is open there are no records. -/
theorem unbalanced_eq_nil (h : IsOpen ⟨values, pending, unbalanced⟩ 0) : unbalanced = [] := by
  have hstrays := h.hasStrays
  rw [HasStrays, List.length_eq_zero_iff.1 h.depth_eq] at hstrays
  exact hstrays.eq_nil

theorem opening (h : IsOpen ⟨values, pending, unbalanced⟩ depth) (index : Int) :
    IsOpen ⟨values, ⟨"(", index, true⟩ :: pending, unbalanced ++ [index]⟩ (depth + 1) where
  pending := by
    rintro top (_ | ⟨_, htop⟩)
    · exact .opening index
    · exact h.pending top htop
  hasStrays := (List.perm_append_singleton _ _).trans (h.hasStrays.cons index)
  depth_eq := congrArg (· + 1) h.depth_eq

/-- Applying operators leaves the parentheses open. -/
theorem drop (h : IsOpen ⟨values, pending, unbalanced⟩ depth) (passes : Pending → Bool)
    (hpasses : ∀ top : Pending, passes top = true → top.isOpening = false) (applied : List Value) :
    IsOpen ⟨applied, pending.dropWhile passes, unbalanced⟩ depth where
  pending := fun top htop => h.pending top ((List.dropWhile_sublist _).subset htop)
  hasStrays := by
    show unbalanced.Perm (openings (pending.dropWhile passes) ++ [])
    rw [openings_dropWhile hpasses]
    exact h.hasStrays
  depth_eq := by
    show (openings (pending.dropWhile passes)).length = depth
    rw [openings_dropWhile hpasses]
    exact h.depth_eq

theorem operator (h : IsOpen ⟨values, pending, unbalanced⟩ depth) (operator : Operator)
    (index : Int) : IsOpen ⟨values, operator.waiting index :: pending, unbalanced⟩ depth where
  pending := by
    rintro top (_ | ⟨_, htop⟩)
    · exact .waiting operator index
    · exact h.pending top htop
  hasStrays := h.hasStrays
  depth_eq := h.depth_eq

/-- The nearest parenthesis that is open can be closed, when what waits above it has been applied. -/
theorem close (h : IsOpen ⟨values, pending, unbalanced⟩ (depth + 1)) (index : Int) :
    ∃ opening waiting, pending.dropWhile (fun top => !top.isOpening) = opening :: waiting ∧
      ∀ applied, ∃ struck, Machine.close ⟨applied, opening :: waiting, unbalanced⟩ index =
        .ok ⟨applied, waiting, struck⟩ ∧ IsOpen ⟨applied, waiting, struck⟩ depth := by
  have hdrop := h.drop (fun top => !top.isOpening) fun top htop => by simpa using htop
  obtain ⟨opening, waiting, hwaits, hopening, hdepth⟩ := exists_opening h.depth_eq
  rw [hwaits] at hdrop
  refine ⟨opening, waiting, hwaits, fun applied => ?_⟩
  obtain ⟨struck, hclose, hclosed⟩ := (hdrop applied).hasStrays.close hopening index
  exact ⟨struck, hclose, fun top htop => (hdrop applied).pending top (List.mem_cons_of_mem _ htop),
    hclosed, hdepth⟩

end Machine.IsOpen

/-! ### The machine does what the arranged tokens say -/

theorem parenthesis?_of_operand {operand : Operand} (h : token.operand? = some operand) :
    token.parenthesis? = none := by
  have hitem := Token.item_of_operand? h
  cases operand <;> simp only [Token.parenthesis?, hitem, Operand.item]

/-- Where parentheses are open that will all be closed, the machine does what the arranged tokens say.
-/
theorem run_finish_eq_performAll (htokens : ∀ token ∈ tokens, token.item.IsRegistered)
    (hopen : IsOpen ⟨values, pending, unbalanced⟩ left.length)
    (hpaired : (Token.parentheses tokens).foldl pairNext left = []) :
    run scope ⟨values, pending, unbalanced⟩ tokens >>= finish scope =
      performAll scope (arrange pending tokens) values >>= onlyValue scope := by
  induction tokens generalizing values pending unbalanced left with
  | nil =>
    rw [show left = [] from hpaired] at hopen
    rw [hopen.unbalanced_eq_nil]
    exact finish_eq_performAll values pending
  | cons token tokens ih =>
    have hrest := fun other hother => htokens other (List.mem_cons_of_mem token hother)
    have htoken := htokens token List.mem_cons_self
    rw [parentheses_cons, List.foldl_append] at hpaired
    rw [run_cons, bind_assoc]
    rcases token.item_cases with ⟨operand, hoperand⟩ | ⟨symbol, hitem⟩ | hitem | ⟨symbol, hitem⟩
    · rw [parenthesis?_of_operand hoperand] at hpaired
      rw [step_of_operand hoperand, arrange_operand hoperand, performAll_cons]
      simp only [perform, bind_assoc]
      congr 1
      funext value
      exact ih hrest ⟨hopen.pending, hopen.hasStrays, hopen.depth_eq⟩ hpaired
    · rw [Token.parenthesis?, hitem] at hpaired
      rw [hitem] at htoken
      cases htoken
      have hnext := hopen.opening token.index
      rw [← List.length_cons (a := ⟨.opening, token.index⟩)] at hnext
      rw [step_of_opening hitem, ok_bind, arrange_opening hitem]
      exact ih hrest hnext hpaired
    · rw [Token.parenthesis?, hitem] at hpaired
      obtain ⟨p, earlier, rfl, hearlier⟩ := exists_of_foldl_closing hpaired
      obtain ⟨opening, waiting, hdrop, hclose⟩ := hopen.close token.index
      rw [step_of_closing hitem, drain_toOpening_eq_performAll, arrange_closing hitem, hdrop,
        performAll_append]
      simp only [bind_assoc, ok_bind]
      congr 1
      funext applied
      obtain ⟨struck, hclosed, hnext⟩ := hclose applied
      rw [hclosed, ok_bind]
      exact ih hrest hnext hearlier
    · rw [Token.parenthesis?, hitem] at hpaired
      rw [hitem] at htoken
      obtain ⟨operator, rfl⟩ := htoken
      rw [step_of_operator hitem, drain_before_eq_performAll operator hopen.pending,
        arrange_operator hitem, performAll_append]
      simp only [bind_assoc, ok_bind]
      congr 1
      funext applied
      have hdrained := hopen.drop (Pending.precedes operator.symbol)
        (fun _ => isOpening_of_precedes) applied
      exact ih hrest (hdrained.operator operator token.index) hpaired

/-- If every parenthesis has a partner, the tokens have the value of the arranged ones. -/
theorem evaluateTokens_eq_performAll (htokens : ∀ token ∈ tokens, token.item.IsRegistered)
    (hpaired : unpaired (Token.parentheses tokens) = []) :
    evaluateTokens scope tokens =
      performAll scope (arrange [] tokens) [] >>= onlyValue scope := by
  have hopen : start.IsOpen ([] : List Parenthesis).length := IsOpen.isOpen_start
  exact run_finish_eq_performAll htokens hopen (List.reverse_eq_nil_iff.1 hpaired)

/-! ### Every parenthesis has a partner -/

/-- The same tokens at consecutive places. -/
def Token.renumbered (start : Nat) : List Token → List Token
  | [] => []
  | token :: tokens => { token with index := start } :: renumbered (start + 1) tokens

namespace Token

theorem index_renumbered (tokens : List Token) (start : Nat) :
    (renumbered start tokens).map Token.index = places start tokens.length := by
  induction tokens generalizing start with
  | nil => rfl
  | cons token tokens ih =>
    rw [renumbered, List.map_cons, ih, List.length_cons, Nat.add_comm tokens.length 1, places_add,
      places_one]
    rfl

theorem expands_renumbered (scope : Scope) (tokens : List Token) (start : Nat) :
    Expands scope scope tokens (renumbered start tokens) := by
  induction tokens generalizing start with
  | nil => exact .nil
  | cons token tokens ih => exact .token rfl (fun _ _ => rfl) (ih (start + 1))

theorem isRegistered_renumbered (h : ∀ token ∈ tokens, token.item.IsRegistered) (start : Nat) :
    ∀ token ∈ renumbered start tokens, token.item.IsRegistered := by
  induction tokens generalizing start with
  | nil => simp [renumbered]
  | cons token tokens ih =>
    rintro other (_ | ⟨_, hother⟩)
    · exact h token List.mem_cons_self
    · exact ih (fun other hother => h other (List.mem_cons_of_mem _ hother)) _ other hother

theorem map_parentheses_renumbered (tokens : List Token) (start : Nat) :
    (parentheses (renumbered start tokens)).map unplaced = (parentheses tokens).map unplaced := by
  induction tokens generalizing start with
  | nil => rfl
  | cons token tokens ih =>
    rw [renumbered, parentheses_cons, parentheses_cons, List.map_append, List.map_append, ih]
    congr 1
    unfold parenthesis?
    cases token.item <;> rfl

end Token

/-- In tokens that have a value every parenthesis has a partner, wherever the tokens stand. -/
theorem unpaired_of_value (htokens : ∀ token ∈ tokens, token.item.IsRegistered) {value : Value}
    (h : evaluateTokens scope tokens = .ok value) : unpaired (Token.parentheses tokens) = [] := by
  have hindexes : ((Token.renumbered 0 tokens).map Token.index).Nodup := by
    rw [Token.index_renumbered]
    exact nodup_places _ _
  -- at different places the value is the same, and the records are exact
  have hagree := agree_evaluateTokens (Token.expands_renumbered scope tokens 0) rfl hindexes
  obtain ⟨other, hother, -⟩ := hagree.exists_ok h
  obtain ⟨machine, hrun, hfinish⟩ := bind_eq_ok.1 hother
  have hrecords := unbalanced_of_run (Token.isRegistered_renumbered htokens 0) hindexes hrun
  rw [(finish_eq_ok hfinish).1] at hrecords
  have hunpaired := List.map_eq_nil_iff.1 hrecords.symm
  rwa [unpaired_eq_nil_congr (Token.map_parentheses_renumbered tokens 0)] at hunpaired

/-! ### Postfix expressions -/

/-- Operands and operators, each operator directly behind its operands. -/
inductive IsPostfix : List Instruction → Prop
  | operand (operand : Operand) : IsPostfix [.push operand]
  | negation {top : Pending} {body : List Instruction} (htop : top.symbol = Operator.not.symbol)
      (hbody : IsPostfix body) : IsPostfix (body ++ [.apply top])
  | binary {top : Pending} {operator : BinaryOperator} {left right : List Instruction}
      (htop : top.symbol = operator.symbol) (hleft : IsPostfix left) (hright : IsPostfix right) :
      IsPostfix (left ++ right ++ [.apply top])

/-- Whatever can be applied is a registered operator, and takes as many values as it has operands. -/
theorem exists_operator_of_applyPending {applied : List Value}
    (h : applyPending scope top values = .ok applied) :
    ∃ (operator : Operator) (value : Value) (left : List Value), top.symbol = operator.symbol ∧
      applied = value :: left ∧ values.length = left.length + operator.arity := by
  obtain ⟨symbol, index, isOpening⟩ := top
  cases hsymbol : Operator.ofSymbol? symbol with
  | none =>
    simp only [applyPending, hsymbol] at h
    cases h
  | some operator =>
    cases Operator.symbol_of_ofSymbol? hsymbol
    have hwaiting : applyPending scope (operator.waiting index) values = .ok applied := h
    obtain ⟨operands, left, value, rfl, harity, -, rfl⟩ := applyPending_waiting_eq_ok hwaiting
    refine ⟨operator, value, left, rfl, rfl, ?_⟩
    rw [List.length_append, List.length_reverse]
    omega

/-- Instructions that are a number of such expressions, one behind the other. -/
def ArePostfix (count : Nat) (code : List Instruction) : Prop :=
  ∃ parts : List (List Instruction), (∀ part ∈ parts, IsPostfix part) ∧ parts.length = count ∧
    code = parts.reverse.flatten

/-- An instruction that can be performed begins an expression, or puts the latest ones together. -/
theorem ArePostfix.perform {code : List Instruction} {instruction : Instruction}
    {next : List Value} (hcode : ArePostfix values.length code)
    (h : instruction.perform scope values = .ok next) :
    ArePostfix next.length (code ++ [instruction]) := by
  obtain ⟨parts, hparts, hlength, rfl⟩ := hcode
  cases instruction with
  | push operand =>
    obtain ⟨value, -, hpush⟩ := bind_eq_ok.1 h
    cases hpush
    refine ⟨[.push operand] :: parts, ?_, congrArg (· + 1) hlength, by simp⟩
    exact List.forall_mem_cons.2 ⟨.operand operand, hparts⟩
  | apply top =>
    obtain ⟨operator, value, left, htop, rfl, hvalues⟩ := exists_operator_of_applyPending h
    rw [hvalues] at hlength
    cases operator with
    | not =>
      obtain ⟨body, parts, rfl⟩ := List.exists_cons_of_length_eq_add_one hlength
      obtain ⟨hbody, hparts⟩ := List.forall_mem_cons.1 hparts
      refine ⟨(body ++ [.apply top]) :: parts, ?_, hlength, by simp⟩
      exact List.forall_mem_cons.2 ⟨.negation htop hbody, hparts⟩
    | binary operator =>
      obtain ⟨second, parts, rfl⟩ := List.exists_cons_of_length_eq_add_one hlength
      obtain ⟨first, parts, rfl⟩ :=
        List.exists_cons_of_length_eq_add_one (Nat.succ.inj hlength)
      obtain ⟨hsecond, hparts⟩ := List.forall_mem_cons.1 hparts
      obtain ⟨hfirst, hparts⟩ := List.forall_mem_cons.1 hparts
      refine ⟨(first ++ second ++ [.apply top]) :: parts, ?_, Nat.succ.inj hlength, by simp⟩
      exact List.forall_mem_cons.2 ⟨.binary htop hfirst hsecond, hparts⟩

theorem ArePostfix.performAll {code more : List Instruction} {results : List Value}
    (hcode : ArePostfix values.length code) (h : performAll scope more values = .ok results) :
    ArePostfix results.length (code ++ more) := by
  induction more generalizing values code with
  | nil =>
    cases h
    rwa [List.append_nil]
  | cons instruction more ih =>
    obtain ⟨next, hnext, hrest⟩ := bind_eq_ok.1 h
    rw [List.append_cons]
    exact ih (hcode.perform hnext) hrest

/-- Instructions that leave one value behind are a postfix expression. -/
theorem isPostfix_of_performAll {code : List Instruction} {value : Value}
    (h : performAll scope code [] = .ok [value]) : IsPostfix code := by
  have hnone : ArePostfix ([] : List Value).length [] := ⟨[], by simp, rfl, rfl⟩
  obtain ⟨parts, hparts, hlength, hcode⟩ := hnone.performAll h
  obtain ⟨part, rfl⟩ := List.length_eq_one_iff.1 hlength
  rw [List.nil_append] at hcode
  rw [hcode]
  simpa using hparts

/-! ### Nothing is left out -/

/-- Operands stay in their order. -/
theorem operands_arrange (waiting : List Pending) (tokens : List Token) :
    (arrange waiting tokens).filterMap operand? = tokens.filterMap Token.operand? := by
  have hnone : ∀ waiting : List Pending, (waiting.map Instruction.apply).filterMap operand? = [] := by
    intro waiting
    rw [List.filterMap_map]
    exact List.filterMap_eq_nil_iff.2 fun _ _ => rfl
  induction tokens generalizing waiting with
  | nil => exact hnone waiting
  | cons token tokens ih =>
    rw [List.filterMap_cons]
    rcases token.item_cases with ⟨operand, hoperand⟩ | ⟨symbol, hitem⟩ | hitem | ⟨symbol, hitem⟩
    · rw [arrange_operand hoperand, hoperand, ← ih waiting]
      rfl
    · rw [arrange_opening hitem, ih, Token.operand?, hitem]
    · rw [arrange_closing hitem, List.filterMap_append, hnone, ih, Token.operand?, hitem]
      rfl
    · rw [arrange_operator hitem, List.filterMap_append, hnone, ih, Token.operand?, hitem]
      rfl

/-- Of what waits, the operators that are applied come first. -/
theorem filter_eq_takeWhile_append {passes : Pending → Bool}
    (h : ∀ top : Pending, passes top = true → top.isOpening = false) (waiting : List Pending) :
    (waiting.filter fun top => !top.isOpening) =
      waiting.takeWhile passes ++ (waiting.dropWhile passes).filter fun top => !top.isOpening := by
  have htake : (waiting.takeWhile passes).filter (fun top => !top.isOpening) =
      waiting.takeWhile passes :=
    List.filter_eq_self.2 fun top htop => by simp [h top (List.mem_takeWhile_imp htop)]
  conv_lhs => rw [← List.takeWhile_append_dropWhile (p := passes) (l := waiting)]
  rw [List.filter_append, htake]

/-- Every operator is applied once. -/
theorem operators_arrange (hopenings : (openings waiting).length = left.length)
    (hpaired : (Token.parentheses tokens).foldl pairNext left = []) :
    ((arrange waiting tokens).filterMap top?).Perm
      ((waiting.filter fun top => !top.isOpening) ++ tokens.filterMap Token.operator?) := by
  have htops : ∀ waiting : List Pending, (waiting.map Instruction.apply).filterMap top? = waiting := by
    intro waiting
    rw [List.filterMap_map]
    exact List.filterMap_some
  induction tokens generalizing waiting left with
  | nil =>
    rw [show left = [] from hpaired] at hopenings
    have hnone := openings_eq_nil.1 (List.length_eq_zero_iff.1 hopenings)
    rw [arrange, htops, List.filterMap_nil, List.append_nil, List.filter_eq_self.2]
    simpa using hnone
  | cons token tokens ih =>
    rw [parentheses_cons, List.foldl_append] at hpaired
    rw [List.filterMap_cons]
    rcases token.item_cases with ⟨operand, hoperand⟩ | ⟨symbol, hitem⟩ | hitem | ⟨symbol, hitem⟩
    · rw [parenthesis?_of_operand hoperand] at hpaired
      rw [arrange_operand hoperand, operator?_of_operand (by rw [Token.isOperand, hoperand]; rfl)]
      exact ih hopenings hpaired
    · rw [Token.parenthesis?, hitem] at hpaired
      rw [arrange_opening hitem, Token.operator?, hitem]
      exact ih (congrArg (· + 1) hopenings) hpaired
    · rw [Token.parenthesis?, hitem] at hpaired
      obtain ⟨p, earlier, rfl, hearlier⟩ := exists_of_foldl_closing hpaired
      obtain ⟨opening, below, hdrop, hopening, hdepth⟩ := exists_opening hopenings
      have hsplit := filter_eq_takeWhile_append
        (fun top (htop : (!top.isOpening) = true) => by simpa using htop) waiting
      rw [hdrop, List.filter_cons_of_neg (by simp [hopening])] at hsplit
      rw [arrange_closing hitem, hdrop, List.filterMap_append, htops, hsplit, List.append_assoc,
        Token.operator?, hitem]
      exact (ih hdepth hearlier).append_left _
    · rw [Token.parenthesis?, hitem] at hpaired
      have hsplit := filter_eq_takeWhile_append
        (fun top (htop : top.precedes symbol = true) => isOpening_of_precedes htop) waiting
      have hopen : (openings (⟨symbol, token.index, false⟩ ::
          waiting.dropWhile (Pending.precedes symbol))).length = left.length := by
        have hdropped : openings (waiting.dropWhile (Pending.precedes symbol)) = openings waiting :=
          openings_dropWhile fun _ => isOpening_of_precedes
        rw [← hopenings, ← hdropped]
        rfl
      rw [arrange_operator hitem, List.filterMap_append, htops, hsplit, List.append_assoc,
        Token.operator?, hitem]
      exact ((ih hopen hpaired).trans List.perm_middle.symm).append_left _

end Criteria
