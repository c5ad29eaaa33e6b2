import Criteria.Proofs.Expression.Basic
import Criteria.Proofs.Machine.Parentheses

/-!
# How the machine reads an expression

Reading an expression leaves operators behind that wait for what comes next, so a stack of values
alone does not tell what has been read. But whatever comes next first applies the waiting operators
that bind at least as strongly as the level of the expression:

* `Absorbs` says this of a continuation, `IsBlocked` of what waited before the expression began;
* `Reads`: reading some tokens and going on is applying an effect to the values and going on;
* `reads_tokens`: the tokens of an expression are read with its `effect`, by induction on the tree,
  with one lemma for each of its constructors;
* `evaluateTokens_eq_effect`: so the value of an expression is what its effect leaves on the empty
  stack.
-/

namespace Criteria

open Machine Outcome

variable {scope : Scope} {level start : Nat} {values : List Value} {rest : List Pending}
  {unbalanced : List Int} {α : Type}

/-- A continuation that applies the operators on top that bind at least as strongly as a level. -/
def Absorbs (scope : Scope) (level : Nat) (unbalanced : List Int)
    (next : Machine → Except Fault α) : Prop :=
  ∀ operator : Operator, level ≤ operator.precedence → ∀ index values rest,
    next ⟨values, operator.waiting index :: rest, unbalanced⟩ =
      applyPending scope (operator.waiting index) values >>= fun applied =>
        next ⟨applied, rest, unbalanced⟩

/-- What waits is not applied before an operator that binds at least as strongly as a level. -/
def IsBlocked (level : Nat) (pending : List Pending) : Prop :=
  ∀ top ∈ pending.head?, ∀ operator : Operator, level ≤ operator.precedence →
    before operator.symbol top = .ok false

theorem Absorbs.mono {higher : Nat} {next : Machine → Except Fault α} (h : level ≤ higher)
    (hnext : Absorbs scope level unbalanced next) : Absorbs scope higher unbalanced next :=
  fun operator hoperator => hnext operator (Nat.le_trans h hoperator)

theorem IsBlocked.mono {higher : Nat} (h : level ≤ higher) (hrest : IsBlocked level rest) :
    IsBlocked higher rest :=
  fun top htop operator hoperator => hrest top htop operator (Nat.le_trans h hoperator)

theorem isBlocked_nil : IsBlocked level [] := by
  intro top htop
  cases htop

theorem isBlocked_opening (index : Int) : IsBlocked level (⟨"(", index, true⟩ :: rest) := by
  intro top htop operator _
  cases htop
  exact hasPrecedence_opening operator.symbol

theorem isBlocked_waiting {operator : Operator} (h : operator.precedence < level) (index : Int) :
    IsBlocked level (operator.waiting index :: rest) := by
  intro top htop next hnext
  cases htop
  have hlt : ¬ next.precedence ≤ operator.precedence := by omega
  exact (hasPrecedence_symbol next operator).trans (by rw [decide_eq_false hlt])

theorem before_waiting (next operator : Operator) (h : next.precedence ≤ operator.precedence)
    (index : Int) : before next.symbol (operator.waiting index) = .ok true :=
  (hasPrecedence_symbol next operator).trans (by rw [decide_eq_true h])

/-- An operator leaves alone what is blocked at its own precedence. -/
theorem drain_of_isBlocked (operator : Operator) (h : level ≤ operator.precedence)
    (hrest : IsBlocked level rest) :
    drain scope (before operator.symbol) ⟨values, rest, unbalanced⟩ =
      .ok ⟨values, rest, unbalanced⟩ := by
  cases rest with
  | nil => rfl
  | cons top rest => exact drain_of_false (hrest top rfl operator h)

/-- Draining absorbs what its test holds for. -/
theorem absorbs_drain {test : Pending → Except Fault Bool} (next : Machine → Except Fault α)
    (htest : ∀ operator : Operator, level ≤ operator.precedence → ∀ index,
      test (operator.waiting index) = .ok true) :
    Absorbs scope level unbalanced fun machine => machine.drain scope test >>= next := by
  intro operator hoperator index values rest
  simp only [drain_of_true (htest operator hoperator index), bind_assoc]

/-! ### Runs of marks -/

/-- Further marks after a waiting one: each of them applies the one before it. -/
theorem run_marks_of_waiting (hrest : IsBlocked Operator.not.precedence rest) (start count : Nat)
    (values : List Value) :
    run scope ⟨values, Operator.not.waiting start :: rest, unbalanced⟩ (marks (start + 1) count) =
      applyMarks scope start count values >>= fun negated =>
        .ok ⟨negated, Operator.not.waiting ↑(start + count) :: rest, unbalanced⟩ := by
  induction count generalizing start values with
  | zero => rfl
  | succ count ih =>
    rw [marks, run_cons, step_of_operator rfl,
      drain_of_true (before_waiting .not .not (Nat.le_refl _) start)]
    simp only [applyMarks, bind_assoc, drain_of_isBlocked .not (Nat.le_refl _) hrest, ok_bind, push]
    congr 1
    funext negated
    rw [← show start + 1 + count = start + (count + 1) by omega]
    exact ih (start + 1) negated

/-- A run of marks applies all of them but the last one to what is on top. -/
theorem run_marks (hrest : IsBlocked Operator.not.precedence rest) (start more : Nat)
    (values : List Value) :
    run scope ⟨values, rest, unbalanced⟩ (marks start (more + 1)) =
      applyMarks scope start more values >>= fun negated =>
        .ok ⟨negated, Operator.not.waiting ↑(start + more) :: rest, unbalanced⟩ := by
  rw [marks, run_cons, step_of_operator rfl, drain_of_isBlocked .not (Nat.le_refl _) hrest, ok_bind,
    ok_bind]
  exact run_marks_of_waiting hrest start more values

/-! ### Expressions -/

/-- Reading tokens and going on is applying an effect to the values and going on, if what comes next
absorbs what binds at least as strongly as a level. The tokens stand at a place or after it, and
every parenthesis that has no partner so far stands before it. -/
def Reads (scope : Scope) (level start : Nat) (tokens : List Token)
    (effect : List Value → Except Fault (List Value)) : Prop :=
  ∀ (α : Type) (values : List Value) (rest : List Pending) (unbalanced : List Int)
    (next : Machine → Except Fault α), (∀ index ∈ unbalanced, index < start) →
    IsBlocked level rest → Absorbs scope level unbalanced next →
    run scope ⟨values, rest, unbalanced⟩ tokens >>= next =
      effect values >>= fun pushed => next ⟨pushed, rest, unbalanced⟩

theorem reads_operand (leaf : Operand) (text : String) :
    Reads scope level start [⟨leaf.item, text, start⟩]
      fun values => leaf.value scope >>= fun value => .ok (value :: values) := by
  intro α values rest unbalanced next _ _ _
  rw [run_cons]
  cases leaf with
  | literal value => rfl
  | path text =>
    rw [step_of_path rfl]
    simp only [bind_assoc]
    rfl

/-- Go on with a closing parenthesis and what comes after it. -/
def thenClosing (scope : Scope) (index : Int) (next : Machine → Except Fault α)
    (machine : Machine) : Except Fault α :=
  machine.drain scope toOpening >>= fun drained => drained.close index >>= next

/-- Go on with an operator, the tokens of its right operand, and what comes after them. -/
def thenOperator (scope : Scope) (operator : BinaryOperator) (place : Nat) (right : List Token)
    (next : Machine → Except Fault α) (machine : Machine) : Except Fault α :=
  machine.drain scope (before operator.symbol) >>= fun drained =>
    run scope (drained.push ((Operator.binary operator).waiting place)) right >>= next

theorem absorbs_thenClosing (index : Int) (next : Machine → Except Fault α) :
    Absorbs scope level unbalanced (thenClosing scope index next) :=
  absorbs_drain _ fun _ _ _ => rfl

theorem absorbs_thenOperator (operator : BinaryOperator) (place : Nat) (right : List Token)
    (next : Machine → Except Fault α) :
    Absorbs scope operator.precedence unbalanced (thenOperator scope operator place right next) :=
  absorbs_drain _ fun waiting hwaiting => before_waiting (.binary operator) waiting hwaiting

theorem run_append_closing (machine : Machine) (body : List Token) (text : String) (index : Int)
    (next : Machine → Except Fault α) :
    run scope machine (body ++ [⟨.closing, text, index⟩]) >>= next =
      run scope machine body >>= thenClosing scope index next := by
  rw [run_append, bind_assoc]
  congr 1
  funext machine
  rw [run_cons, step_of_closing rfl, bind_assoc, bind_assoc]
  rfl

theorem run_append_operator (machine : Machine) (left right : List Token)
    (operator : BinaryOperator) (place : Nat) (next : Machine → Except Fault α) :
    run scope machine (left ++ (Operator.binary operator).token place :: right) >>= next =
      run scope machine left >>= thenOperator scope operator place right next := by
  rw [run_append, bind_assoc]
  congr 1
  funext machine
  rw [run_cons, step_of_operator rfl, bind_assoc, bind_assoc]
  rfl

/-- A group has the effect of its body: its opening parenthesis is a barrier, and its closing one
applies whatever the body has left. -/
theorem Reads.group {body : List Token} {effect : List Value → Except Fault (List Value)}
    (hbody : Reads scope 0 (start + 1) body effect) (index : Int) :
    Reads scope level start
      (⟨.opening "(", "(", start⟩ :: (body ++ [⟨.closing, ")", index⟩])) effect := by
  intro α values rest unbalanced next hfresh _ _
  have hnot : (start : Int) ∉ unbalanced := fun hmem => by
    have := hfresh _ hmem
    omega
  have hfresh' : ∀ index ∈ unbalanced ++ [(start : Int)], index < ↑(start + 1) := by
    intro index hmem
    rcases List.mem_append.1 hmem with hmem | hmem
    · have := hfresh _ hmem
      omega
    · rw [List.mem_singleton.1 hmem]
      omega
  have hclose : ∀ pushed : List Value,
      thenClosing scope index next
          ⟨pushed, ⟨"(", start, true⟩ :: rest, unbalanced ++ [(start : Int)]⟩ =
        next ⟨pushed, rest, unbalanced⟩ := by
    intro pushed
    rw [thenClosing, drain_of_false rfl, ok_bind, close_of_recorded hnot, ok_bind]
  rw [run_cons]
  -- above the parenthesis nothing is blocked, and whatever the body leaves is absorbed when it closes
  show run scope ⟨values, ⟨"(", start, true⟩ :: rest, unbalanced ++ [(start : Int)]⟩ _ >>= next = _
  rw [run_append_closing, hbody α values _ _ _ hfresh' (isBlocked_opening _)
    (absorbs_thenClosing index next)]
  simp only [hclose]

/-- Of a run of marks all but the last one are applied before the operand is read, the last one
after it. -/
theorem Reads.negation {body : List Token} {effect : List Value → Except Fault (List Value)}
    {more : Nat} (binds : level ≤ Operator.not.precedence)
    (hbody : Reads scope (Operator.not.precedence + 1) (start + more + 1) body effect) :
    Reads scope level start (marks start (more + 1) ++ body) fun values =>
      applyMarks scope start more values >>= fun negated => effect negated >>= fun pushed =>
        applyPending scope (Operator.not.waiting ↑(start + more)) pushed := by
  intro α values rest unbalanced next hfresh hrest hnext
  have hfresh' : ∀ index ∈ unbalanced, index < ↑(start + more + 1) := fun index hmem => by
    have := hfresh _ hmem
    omega
  rw [run_append, run_marks (hrest.mono binds)]
  simp only [bind_assoc, ok_bind]
  congr 1
  funext negated
  rw [hbody α negated _ unbalanced next hfresh' (isBlocked_waiting (by decide) _)
    (hnext.mono (by omega))]
  congr 1
  funext pushed
  -- the last mark still waits, and is absorbed by what comes next
  exact hnext .not binds _ pushed rest

/-- An operator applies what its left operand has left, and waits for its right operand. -/
theorem Reads.binary {left right : List Token}
    {onLeft onRight : List Value → Except Fault (List Value)} {operator : BinaryOperator}
    {place : Nat} (binds : level ≤ operator.precedence) (hplace : start ≤ place)
    (hleft : Reads scope operator.precedence start left onLeft)
    (hright : Reads scope (operator.precedence + 1) (place + 1) right onRight) :
    Reads scope level start (left ++ (Operator.binary operator).token place :: right) fun values =>
      onLeft values >>= fun first => onRight first >>= fun second =>
        applyPending scope ((Operator.binary operator).waiting place) second := by
  intro α values rest unbalanced next hfresh hrest hnext
  have hfresh' : ∀ index ∈ unbalanced, index < ↑(place + 1) := fun index hmem => by
    have := hfresh _ hmem
    omega
  have hblocked : ∀ pending,
      IsBlocked (operator.precedence + 1) ((Operator.binary operator).waiting place :: pending) :=
    fun _ => isBlocked_waiting (Nat.lt_succ_self operator.precedence) _
  have hthen : ∀ first : List Value,
      thenOperator scope operator place right next ⟨first, rest, unbalanced⟩ =
        run scope ⟨first, (Operator.binary operator).waiting place :: rest, unbalanced⟩ right
          >>= next := by
    intro first
    show drain scope (before (Operator.binary operator).symbol) _ >>= _ = _
    rw [drain_of_isBlocked (.binary operator) binds hrest]
    rfl
  rw [run_append_operator, hleft α values rest unbalanced _ hfresh (hrest.mono binds)
    (absorbs_thenOperator operator place right next)]
  simp only [bind_assoc]
  congr 1
  funext first
  rw [hthen, hright α first _ unbalanced next hfresh' (hblocked rest) (hnext.mono (by omega))]
  congr 1
  funext second
  exact hnext (.binary operator) binds _ second rest

/-- The tokens of an expression are read with its effect. -/
theorem reads_tokens (e : Expression level) (start : Nat) :
    Reads scope level start (e.tokens start) (e.effect scope start) := by
  -- the level in `Reads` is what lets every subtree be read in what surrounds it
  induction e generalizing start with
  | operand leaf text => exact reads_operand leaf text
  | group body ih => exact Reads.group (ih (start + 1)) _
  | negation more body binds ih => exact Reads.negation binds (ih (start + more + 1))
  | binary operator left right binds ihleft ihright =>
    exact Reads.binary binds (Nat.le_add_right _ _) (ihleft start)
      (ihright (start + left.width + 1))

/-- At the end everything that waits is applied, if every parenthesis has a partner. -/
theorem absorbs_finish : Absorbs scope level [] (finish scope) :=
  absorbs_drain (fun drained => onlyValue scope drained.values) fun _ _ _ => rfl

/-- **The value of an expression is what its effect leaves on the empty stack.** -/
theorem evaluateTokens_eq_effect (scope : Scope) (e : Expression level) :
    evaluateTokens scope (e.tokens 0) = e.effect scope 0 [] >>= onlyValue scope := by
  have h := reads_tokens e 0 Value [] [] [] (finish scope) (by simp) isBlocked_nil absorbs_finish
  rw [evaluateTokens, start, h]
  rfl

end Criteria
