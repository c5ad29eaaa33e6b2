import Mathlib.Data.List.Chain
import Criteria.Evaluate
import Criteria.Proofs.Machine.Arrangement

/-!
# Which sequences of tokens have a value

The machine does not look at where operators stand, only at how many values there are when they are
applied. So `1 2 +` has a value, and so has `() 1`. A sequence has a value exactly if every
parenthesis has a partner and the arranged tokens have one; these are a postfix expression then
(`evaluateTokens_eq_ok_iff`).

* `IsInfix`: the sequences that the infix grammar derives;
* `Token.Fits`: two neighbours fit if an operand ends with the first one or begins with the second
  one, and not both;
* `isInfix_of_alternates`: among the sequences with a value, those whose neighbours fit are infix.
-/

namespace Criteria

open Machine Outcome Parenthesis Instruction

variable {scope : Scope} {token : Token} {tokens front part : List Token} {ended : Bool}
  {left : List Parenthesis}

/-- Infix expressions: an operand, a group, a negation, or two expressions with an operator between
them. -/
inductive IsInfix : List Token → Prop
  | operand {token : Token} (htoken : token.isOperand = true) : IsInfix [token]
  | group {opening closing : Token} {symbol : String} {body : List Token}
      (hopening : opening.item = .opening symbol) (hclosing : closing.item = .closing)
      (hbody : IsInfix body) : IsInfix (opening :: (body ++ [closing]))
  | negation {mark : Token} {body : List Token} (hmark : mark.item = .operator Operator.not.symbol)
      (hbody : IsInfix body) : IsInfix (mark :: body)
  | binary {token : Token} {operator : BinaryOperator} {left right : List Token}
      (htoken : token.item = .operator operator.symbol) (hleft : IsInfix left)
      (hright : IsInfix right) : IsInfix (left ++ token :: right)

namespace Token

/-- Whether an operand begins with a token. -/
def begins (token : Token) : Bool :=
  match token.item with
  | .opening _ => true
  | .closing => false
  | .operator symbol => symbol == Operator.not.symbol
  | .literal _ => true
  | .path _ => true

/-- Whether an operand ends with a token. -/
def ends (token : Token) : Bool :=
  match token.item with
  | .opening _ => false
  | .closing => true
  | .operator _ => false
  | .literal _ => true
  | .path _ => true

theorem begins_of_operand {operand : Operand} (h : token.operand? = some operand) :
    token.begins = true ∧ token.ends = true := by
  unfold operand? at h
  unfold begins ends
  split at h <;> simp_all

/-- An operand ends with the first token or begins with the second one, and not both. -/
def Fits (first second : Token) : Prop := second.begins = !first.ends

instance (first second : Token) : Decidable (Fits first second) := instDecidableEqBool _ _

/-- Whether an operand has ended after tokens. -/
def endsAfter (ended : Bool) (tokens : List Token) : Bool :=
  tokens.foldl (fun _ token => token.ends) ended

/-- Operands begin and end in turn. -/
def Alternates (ended : Bool) : List Token → Prop
  | [] => True
  | token :: tokens => token.begins = (!ended) ∧ Alternates token.ends tokens

theorem alternates_append (ended : Bool) (front back : List Token) :
    Alternates ended (front ++ back) ↔
      Alternates ended front ∧ Alternates (endsAfter ended front) back := by
  induction front generalizing ended with
  | nil => simp [Alternates, endsAfter]
  | cons token front ih => simp [Alternates, endsAfter, ih token.ends, and_assoc]

/-- Neighbours fit if operands begin and end in turn, whatever the first token is. -/
theorem isChain_fits_iff (tokens : List Token) :
    tokens.IsChain Fits ↔ ∃ ended, Alternates ended tokens := by
  have hcons : ∀ (token : Token) (tokens : List Token),
      (token :: tokens).IsChain Fits ↔ Alternates token.ends tokens := by
    intro token tokens
    induction tokens generalizing token with
    | nil => simp [Alternates]
    | cons next tokens ih => simp [List.isChain_cons_cons, ih next, Alternates, Fits]
  cases tokens with
  | nil => simp [Alternates]
  | cons token tokens =>
    rw [hcons]
    constructor
    · exact fun h => ⟨!token.begins, by simp, h⟩
    · rintro ⟨ended, -, h⟩
      exact h

/-- What a token does to the number of operands that have ended. -/
theorem count_singleton (h : token.item.IsRegistered) (hbegins : token.begins = !ended) :
    [token].countP isOperand + ended.toNat =
      ([token].filterMap operator?).countP Pending.isBinary + token.ends.toNat := by
  obtain rfl : ended = !token.begins := by simp [hbegins]
  obtain ⟨item, text, index⟩ := token
  cases item with
  | operator symbol =>
    obtain ⟨operator, rfl⟩ := h
    cases operator with
    | not => rfl
    | binary operator => cases operator <;> rfl
  | _ => rfl

/-- Where operands begin and end in turn, the operators between two operands make the difference. -/
theorem count_of_alternates (htokens : ∀ token ∈ tokens, token.item.IsRegistered)
    (h : Alternates ended tokens) :
    tokens.countP isOperand + ended.toNat =
      (tokens.filterMap operator?).countP Pending.isBinary + (endsAfter ended tokens).toNat := by
  induction tokens generalizing ended with
  | nil => rfl
  | cons token tokens ih =>
    have htoken := count_singleton (htokens token List.mem_cons_self) h.1
    have hrest := ih (fun other hother => htokens other (List.mem_cons_of_mem _ hother)) h.2
    rw [← List.singleton_append, List.countP_append, List.filterMap_append, List.countP_append]
    change _ = _ + (endsAfter token.ends tokens).toNat
    omega

end Token

/-! ### Infix expressions alternate -/

/-- In an infix expression operands begin and end in turn. -/
theorem alternates_of_isInfix (h : IsInfix tokens) :
    Token.Alternates false tokens ∧ ∀ ended, Token.endsAfter ended tokens = true := by
  induction h with
  | @operand token htoken =>
    obtain ⟨operand, hoperand⟩ := Option.isSome_iff_exists.1 htoken
    obtain ⟨hbegins, hends⟩ := Token.begins_of_operand hoperand
    exact ⟨⟨hbegins, trivial⟩, fun ended => hends⟩
  | @group opening closing symbol body hopening hclosing _ ih =>
    have hclose : Token.Alternates true [closing] := by
      simp [Token.Alternates, Token.begins, hclosing]
    have hbody : Token.Alternates false (body ++ [closing]) :=
      (Token.alternates_append false body [closing]).2 ⟨ih.1, (ih.2 false).symm ▸ hclose⟩
    refine ⟨⟨by simp [Token.begins, hopening], ?_⟩, fun ended => ?_⟩
    · rwa [show opening.ends = false by simp [Token.ends, hopening]]
    · simp [Token.endsAfter, Token.ends, hclosing]
  | @negation mark body hmark _ ih =>
    refine ⟨⟨by simp [Token.begins, hmark], ?_⟩, fun ended => ih.2 mark.ends⟩
    rw [show mark.ends = false by simp [Token.ends, hmark]]
    exact ih.1
  | @binary token operator left right htoken _ _ ihleft ihright =>
    have hends : token.ends = false := by simp [Token.ends, htoken]
    have hbegins : token.begins = false := by
      simp only [Token.begins, htoken]
      cases operator <;> rfl
    refine ⟨(Token.alternates_append false left (token :: right)).2 ⟨ihleft.1, ?_⟩, fun ended => ?_⟩
    · rw [ihleft.2 false]
      exact ⟨hbegins, hends ▸ ihright.1⟩
    · rw [Token.endsAfter, List.foldl_append]
      exact ihright.2 token.ends

theorem isChain_of_isInfix (h : IsInfix tokens) : tokens.IsChain Token.Fits :=
  (Token.isChain_fits_iff tokens).2 ⟨false, (alternates_of_isInfix h).1⟩

/-! ### What alternates is infix -/

/-- Tokens of a group that has not been closed yet: an expression if an operand has just ended, else
what becomes one with any expression behind it. -/
def Fills : Bool → List Token → Prop
  | true, part => IsInfix part
  | false, part => ∀ next, IsInfix next → IsInfix (part ++ next)

/-- Tokens with a number of open groups, each inside the one before it. -/
inductive Layers : Bool → Nat → List Token → Prop
  | bottom {ended : Bool} {part : List Token} (hpart : Fills ended part) : Layers ended 0 part
  | above {ended : Bool} {depth : Nat} {below part : List Token} {opening : Token} {symbol : String}
      (hbelow : Layers false depth below) (hopening : opening.item = .opening symbol)
      (hpart : Fills ended part) : Layers ended (depth + 1) (below ++ opening :: part)

namespace Layers

variable {depth : Nat}

/-- What goes on with the innermost group goes on with all tokens. -/
theorem append {after : Bool} {next : List Token} (h : Layers ended depth front)
    (hnext : ∀ part, Fills ended part → Fills after (part ++ next)) :
    Layers after depth (front ++ next) := by
  cases h with
  | bottom hpart => exact .bottom (hnext _ hpart)
  | above hbelow hopening hpart =>
    rw [List.append_assoc, List.cons_append]
    exact .above hbelow hopening (hnext _ hpart)

theorem operand (h : Layers false depth front) (htoken : token.isOperand = true) :
    Layers true depth (front ++ [token]) :=
  h.append fun _ hpart => hpart [token] (.operand htoken)

theorem mark (h : Layers false depth front)
    (htoken : token.item = .operator Operator.not.symbol) :
    Layers false depth (front ++ [token]) := by
  refine h.append fun part hpart next hnext => ?_
  rw [List.append_assoc]
  exact hpart _ (.negation htoken hnext)

theorem binary {operator : BinaryOperator} (h : Layers true depth front)
    (htoken : token.item = .operator operator.symbol) :
    Layers false depth (front ++ [token]) := by
  refine h.append fun part hpart next hnext => ?_
  rw [List.append_assoc]
  exact .binary htoken hpart hnext

theorem opening {symbol : String} (h : Layers false depth front)
    (htoken : token.item = .opening symbol) : Layers false (depth + 1) (front ++ [token]) :=
  .above h htoken fun _ hnext => hnext

theorem closing (h : Layers true (depth + 1) front) (htoken : token.item = .closing) :
    Layers true depth (front ++ [token]) := by
  cases h with
  | above hbelow hopening hpart =>
    rw [List.append_assoc, List.cons_append]
    exact hbelow.append fun _ hfills => hfills _ (.group hopening htoken hpart)

/-- A token goes on with the innermost group, opens a group in it, or closes it. -/
theorem step {rest : List Parenthesis} (h : Layers ended left.length front)
    (htoken : token.item.IsRegistered) (hbegins : token.begins = !ended)
    (hpaired : (token.parenthesis?.toList ++ rest).foldl pairNext left = []) :
    ∃ next : List Parenthesis,
      Layers token.ends next.length (front ++ [token]) ∧ rest.foldl pairNext next = [] := by
  obtain rfl : ended = !token.begins := by simp [hbegins]
  rcases token.item_cases with ⟨operand, hoperand⟩ | ⟨symbol, hitem⟩ | hitem | ⟨symbol, hitem⟩
  · obtain ⟨hstarts, hends⟩ := Token.begins_of_operand hoperand
    rw [parenthesis?_of_operand hoperand] at hpaired
    rw [hstarts] at h
    rw [hends]
    exact ⟨left, h.operand (by rw [Token.isOperand, hoperand]; rfl), hpaired⟩
  · rw [Token.parenthesis?, hitem] at hpaired
    rw [Token.begins, hitem] at h
    rw [Token.ends, hitem]
    exact ⟨⟨.opening, token.index⟩ :: left, h.opening hitem, hpaired⟩
  · rw [Token.parenthesis?, hitem] at hpaired
    rw [Token.begins, hitem] at h
    rw [Token.ends, hitem]
    obtain ⟨opening, earlier, rfl, hearlier⟩ := exists_of_foldl_closing hpaired
    exact ⟨earlier, h.closing hitem, hearlier⟩
  · rw [Token.parenthesis?, hitem] at hpaired
    rw [Token.begins, hitem] at h
    rw [Token.ends, hitem]
    rw [hitem] at htoken
    obtain ⟨operator, rfl⟩ := htoken
    refine ⟨left, ?_, hpaired⟩
    cases operator with
    | not => exact Layers.mark h hitem
    | binary operator =>
      have hbinary : (operator.symbol == Operator.not.symbol) = false := by cases operator <;> rfl
      change Layers (!(operator.symbol == Operator.not.symbol)) left.length front at h
      rw [hbinary] at h
      exact h.binary hitem

/-- Tokens that pair all parentheses close the groups that are open. -/
theorem run (htokens : ∀ token ∈ tokens, token.item.IsRegistered)
    (h : Layers ended left.length front) (halternates : Token.Alternates ended tokens)
    (hpaired : (Token.parentheses tokens).foldl pairNext left = []) :
    Layers (Token.endsAfter ended tokens) 0 (front ++ tokens) := by
  induction tokens generalizing front left ended with
  | nil =>
    rw [show left = [] from hpaired] at h
    rwa [List.append_nil]
  | cons token tokens ih =>
    rw [parentheses_cons] at hpaired
    obtain ⟨next, hnext, hrest⟩ :=
      h.step (htokens token List.mem_cons_self) halternates.1 hpaired
    rw [List.append_cons]
    exact ih (fun other hother => htokens other (List.mem_cons_of_mem _ hother)) hnext
      halternates.2 hrest

end Layers

/-- Sequences in which operands begin and end in turn, with one operand more than operators between
two operands, are infix expressions if every parenthesis has a partner. -/
theorem isInfix_of_alternates (htokens : ∀ token ∈ tokens, token.item.IsRegistered)
    (halternates : Token.Alternates ended tokens)
    (hpaired : unpaired (Token.parentheses tokens) = [])
    (hcount : tokens.countP Token.isOperand =
      (tokens.filterMap Token.operator?).countP Pending.isBinary + 1) : IsInfix tokens := by
  -- an operand more ends than begins, so none has ended before and one has ended after all tokens
  have hends := Token.count_of_alternates htokens halternates
  obtain rfl : ended = false := by
    cases ended with
    | false => rfl
    | true => cases hafter : Token.endsAfter true tokens <;> simp [hafter] at hends <;> omega
  have hafter : Token.endsAfter false tokens = true := by
    cases hafter : Token.endsAfter false tokens with
    | true => rfl
    | false => simp [hafter] at hends; omega
  have hstart : Layers false ([] : List Parenthesis).length [] := .bottom fun _ hnext => hnext
  have hlayers := hstart.run htokens halternates (List.reverse_eq_nil_iff.1 hpaired)
  rw [hafter] at hlayers
  cases hlayers with
  | bottom hpart => exact hpart

/-! ### Sequences with a value -/

/-- In a sequence with a value there is one operand more than operators between two operands. -/
theorem count_of_value (htokens : ∀ token ∈ tokens, token.item.IsRegistered) {value : Value}
    (h : evaluateTokens scope tokens = .ok value) :
    tokens.countP Token.isOperand =
      (tokens.filterMap Token.operator?).countP Pending.isBinary + 1 := by
  obtain ⟨account, hreaches, hmachine, hread, -⟩ := Account.reaches_of_value h
  have hexact := Account.isExact_of_reaches htokens hreaches
  have hcount := hexact.count
  have hoperators := hexact.operators
  have hnone : account.machine.operators = [] := by
    rw [hmachine]
    rfl
  rw [hread, hnone, List.nil_append] at hoperators
  rw [hmachine, hread] at hcount
  rw [← hcount, hoperators.countP_eq]
  exact Nat.add_comm _ _

/-- **What has a value.** Tokens have a value exactly if every parenthesis has a partner and the
arranged tokens have that value. These hold all operands in their order and every operator once, and
are a postfix expression; the tokens themselves are an infix expression exactly if all neighbours
fit. -/
theorem evaluateTokens_eq_ok_iff (scope : Scope) (tokens : List Token)
    (htokens : ∀ token ∈ tokens, token.IsClassified) (value : Value) :
    (evaluateTokens scope tokens = .ok value ↔
      unpaired (Token.parentheses tokens) = [] ∧
        performAll scope (arrange [] tokens) [] = .ok [value]) ∧
    (evaluateTokens scope tokens = .ok value →
      (arrange [] tokens).filterMap operand? = tokens.filterMap Token.operand? ∧
        ((arrange [] tokens).filterMap top?).Perm (tokens.filterMap Token.operator?) ∧
        IsPostfix (arrange [] tokens) ∧
        (IsInfix tokens ↔ tokens.IsChain Token.Fits)) := by
  have hregistered : ∀ token ∈ tokens, token.item.IsRegistered := fun token htoken =>
    (htokens token htoken).isRegistered
  have hvalue : evaluateTokens scope tokens = .ok value ↔
      unpaired (Token.parentheses tokens) = [] ∧
        performAll scope (arrange [] tokens) [] = .ok [value] := by
    constructor
    · intro h
      have hpaired := unpaired_of_value hregistered h
      rw [evaluateTokens_eq_performAll hregistered hpaired] at h
      obtain ⟨results, hresults, honly⟩ := bind_eq_ok.1 h
      rw [onlyValue_eq_ok honly] at hresults
      exact ⟨hpaired, hresults⟩
    · rintro ⟨hpaired, hresults⟩
      rw [evaluateTokens_eq_performAll hregistered hpaired, hresults]
      rfl
  refine ⟨hvalue, fun h => ?_⟩
  obtain ⟨hpaired, hresults⟩ := hvalue.1 h
  refine ⟨operands_arrange [] tokens, ?_, isPostfix_of_performAll hresults, ?_⟩
  · exact operators_arrange rfl (List.reverse_eq_nil_iff.1 hpaired)
  · refine ⟨isChain_of_isInfix, fun hchain => ?_⟩
    obtain ⟨ended, halternates⟩ := (Token.isChain_fits_iff tokens).1 hchain
    exact isInfix_of_alternates hregistered halternates hpaired (count_of_value hregistered h)

/-- `3 ( 4 - )` has the value of `3 4 -`, and `3` does not fit its neighbour. -/
theorem evaluateTokens_eq_ok_iff_group :
    let tokens : List Token := [⟨.literal (.int 3), "3", 0⟩, ⟨.opening "(", "(", 1⟩,
      ⟨.literal (.int 4), "4", 2⟩, ⟨.operator "-", "-", 3⟩, ⟨.closing, ")", 4⟩]
    let scope : Scope := ⟨1000, .null, .standard, "3 ( 4 - )"⟩
    (∀ token ∈ tokens, token.IsClassified) ∧
      arrange [] tokens = [.push (.literal (.int 3)), .push (.literal (.int 4)),
        .apply ⟨"-", 3, false⟩] ∧
      evaluateTokens scope tokens = .ok (.int (-1)) ∧
      IsPostfix (arrange [] tokens) ∧ ¬IsInfix tokens := by
  intro tokens scope
  have hclassify : Token.classifyFrom 0 [['3'], ['('], ['4'], ['-'], [')']] = .ok tokens := rfl
  have hclassified := Token.isClassified_of_classifyFrom hclassify
  obtain ⟨hiff, hform⟩ := evaluateTokens_eq_ok_iff scope tokens hclassified (.int (-1))
  have hvalue := hiff.2 ⟨rfl, rfl⟩
  obtain ⟨-, -, hpostfix, hderived⟩ := hform hvalue
  exact ⟨hclassified, rfl, hvalue, hpostfix, fun h => absurd (hderived.1 h) (by decide)⟩

/-- Values without an infix expression: an operator behind or before both operands, a group without
anything in it, and `!` behind its operand. -/
theorem evaluate_not_isInfix :
    (∃ tokens, tokenize .standard "1 2 +" = .ok tokens ∧ ¬IsInfix tokens ∧
      evaluate 1000 .standard .null "1 2 +" = .ok (.int 3)) ∧
    (∃ tokens, tokenize .standard "+ 1 2" = .ok tokens ∧ ¬IsInfix tokens ∧
      evaluate 1000 .standard .null "+ 1 2" = .ok (.int 3)) ∧
    (∃ tokens, tokenize .standard "() 1" = .ok tokens ∧ ¬IsInfix tokens ∧
      evaluate 1000 .standard .null "() 1" = .ok (.int 1)) ∧
    ∃ tokens, tokenize .standard "true !" = .ok tokens ∧ ¬IsInfix tokens ∧
      evaluate 1000 .standard .null "true !" = .ok (.bool false) := by
  have hnot : ∀ tokens : List Token, ¬tokens.IsChain Token.Fits → ¬IsInfix tokens := by
    intro tokens hchain hderived
    exact hchain (isChain_of_isInfix hderived)
  exact ⟨⟨_, rfl, hnot _ (by decide), rfl⟩, ⟨_, rfl, hnot _ (by decide), rfl⟩,
    ⟨_, rfl, hnot _ (by decide), rfl⟩, ⟨_, rfl, hnot _ (by decide), rfl⟩⟩

end Criteria
