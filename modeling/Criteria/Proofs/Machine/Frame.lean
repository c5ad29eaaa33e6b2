import Criteria.Proofs.Machine.Parentheses

/-!
# What stands in parentheses

Tokens that have a value by themselves have it between parentheses too, whatever comes before and
after. The machine that takes them there is the one that takes them alone, above another one:

* `above`: one machine above another. It never takes values from below, since then it would lack them
  alone; it never applies what waits below, since an opening parenthesis is in between; and it never
  closes that parenthesis, since then a record would be left alone (`step_above`, `run_above`);
* `finish_above`: the closing parenthesis applies what is applied at the end alone, for no
  parenthesis waits any more;
* `evaluateTokens_group`: so the group does what a literal with that value does.
-/

namespace Criteria

namespace Machine

open Outcome

variable {scope : Scope} {machine base next drained : Machine} {token : Token} {tokens : List Token}
  {test : Pending → Except Fault Bool} {values below : List Value} {top : Pending}
  {strays : List Int}

/-- A machine above another one, whose records are the older ones. -/
def above (machine base : Machine) : Machine :=
  ⟨machine.values ++ base.values, machine.pending ++ base.pending,
    base.unbalanced ++ machine.unbalanced⟩

/-- The machine after an opening parenthesis. -/
def opened (machine : Machine) (index : Int) : Machine :=
  (machine.push ⟨"(", index, true⟩).record index

/-! ### Applying above other values -/

/-- What can be applied is applied in the same way above other values. -/
theorem applyPending_append {applied : List Value} (h : applyPending scope top values = .ok applied) :
    applyPending scope top (values ++ below) = .ok (applied ++ below) := by
  unfold applyPending at h ⊢
  cases hoperator : Operator.ofSymbol? top.symbol with
  | none =>
    rw [hoperator] at h
    cases h
  | some operator =>
    simp only [hoperator] at h ⊢
    split at h
    case isTrue => cases h
    case isFalse hlength =>
      have hlength' : ¬ (values ++ below).length < operator.arity := by
        rw [List.length_append]
        omega
      obtain ⟨⟨operands, left⟩, hoperands, hresult⟩ := bind_eq_ok.1 h
      obtain ⟨result, happly, happlied⟩ := bind_eq_ok.1 hresult
      cases happlied
      rw [if_neg hlength', popOperands_append hoperands, ok_bind, happly]
      rfl

/-- Draining stops at a barrier at the latest, so it does the same above it. -/
theorem drain_above (hbarrier : ∀ top ∈ base.pending.head?, test top = .ok false)
    (h : machine.drain scope test = .ok drained) :
    (machine.above base).drain scope test = .ok (drained.above base) := by
  obtain ⟨values, pending, unbalanced⟩ := machine
  obtain ⟨below, waiting, recorded⟩ := base
  induction pending generalizing values with
  | nil =>
    cases h
    cases waiting with
    | nil => rfl
    | cons barrier waiting => exact drain_of_false (hbarrier barrier rfl)
  | cons top rest ih =>
    show drain scope test ⟨values ++ below, top :: (rest ++ waiting), recorded ++ unbalanced⟩ = _
    rw [drain_cons] at h
    obtain ⟨passes, htest, hpasses⟩ := bind_eq_ok.1 h
    cases passes with
    | false =>
      cases hpasses
      exact drain_of_false htest
    | true =>
      rw [if_pos rfl] at hpasses
      obtain ⟨applied, happlied, hrest⟩ := bind_eq_ok.1 hpasses
      rw [drain_of_true htest, applyPending_append happlied, ok_bind]
      exact ih applied hrest

/-- An opening parenthesis is a barrier for every operator and for a closing parenthesis. -/
theorem drain_before_above {index : Int} {symbol : String}
    (h : machine.drain scope (before symbol) = .ok drained) :
    (machine.above (base.opened index)).drain scope (before symbol) =
      .ok (drained.above (base.opened index)) := by
  refine drain_above ?_ h
  rintro top ⟨⟩
  exact hasPrecedence_opening symbol

theorem drain_toOpening_above {index : Int} (h : machine.drain scope toOpening = .ok drained) :
    (machine.above (base.opened index)).drain scope toOpening =
      .ok (drained.above (base.opened index)) := by
  refine drain_above ?_ h
  rintro top ⟨⟩
  rfl

/-! ### Running above another machine -/

/-- Closing a parenthesis of the upper machine leaves the records of the lower one alone. -/
theorem close_above {index : Int} {rest : List Pending} {unbalanced : List Int}
    (hfresh : ∀ index ∈ unbalanced, index ∉ base.unbalanced)
    (h : close ⟨values, top :: rest, unbalanced⟩ index = .ok next) :
    (above ⟨values, top :: rest, unbalanced⟩ base).close index = .ok (next.above base) := by
  rw [close_cons] at h
  obtain ⟨struck, hstrike, hnext⟩ := bind_eq_ok.1 h
  cases hnext
  have hmem : top.index ∈ unbalanced := (strike_eq_ok.1 hstrike).1
  show strike top.index (base.unbalanced ++ unbalanced) >>= _ = _
  rw [strike_append_left (hfresh _ hmem), hstrike]
  rfl

/-- A step does the same above another machine, unless it leaves a stray. -/
theorem step_above {index : Int} (hstrays : machine.HasStrays strays)
    (hfresh : ∀ other ∈ machine.unbalanced, other ∉ (base.opened index).unbalanced)
    (h : step scope machine token = .ok next) :
    step scope (machine.above (base.opened index)) token =
        .ok (next.above (base.opened index)) ∨
      ∃ stray more, next.HasStrays (stray :: more) := by
  rcases step_cases h with ⟨symbol, hitem, rfl⟩ | ⟨hitem, drained, hdrain, hclose⟩ |
    ⟨symbol, hitem, drained, hdrain, rfl⟩ | ⟨value, rfl, hother⟩
  · left
    rw [step_of_opening hitem]
    simp [above, push, record]
  · obtain ⟨more, hdrained⟩ := hstrays.drain hdrain
    obtain ⟨-, -, hunbalanced, -, -⟩ := drain_eq_ok hdrain
    rw [← hunbalanced] at hfresh
    rw [step_of_closing hitem, drain_toOpening_above hdrain, ok_bind]
    obtain ⟨values, _ | ⟨top, rest⟩, unbalanced⟩ := drained
    · right
      cases hclose
      exact ⟨token.index, _, hdrained.close_nil token.index⟩
    · exact Or.inl (close_above hfresh hclose)
  · left
    rw [step_of_operator hitem, drain_before_above hdrain]
    rfl
  · exact Or.inl (hother _)

/-- A run that leaves no record does the same above another machine. -/
theorem run_above {index : Int} (hstrays : machine.HasStrays strays)
    (hfresh : ∀ other ∈ machine.unbalanced, other ∉ (base.opened index).unbalanced)
    (htokens : ∀ token ∈ tokens, token.index ∉ (base.opened index).unbalanced)
    (h : run scope machine tokens = .ok next) (hnext : next.unbalanced = []) :
    run scope (machine.above (base.opened index)) tokens =
      .ok (next.above (base.opened index)) := by
  induction tokens generalizing machine strays with
  | nil =>
    cases h
    rfl
  | cons token tokens ih =>
    obtain ⟨between, hstep, hrest⟩ := bind_eq_ok.1 h
    rcases step_above hstrays hfresh hstep with habove | ⟨stray, more, hbetween⟩
    · obtain ⟨more, hbetween⟩ := hstrays.step hstep
      rw [run_cons, habove, ok_bind]
      refine ih hbetween (fun other hother => ?_) (fun token htoken =>
        htokens token (List.mem_cons_of_mem _ htoken)) hrest
      rcases mem_unbalanced_of_step hstep hother with hmachine | rfl
      · exact hfresh other hmachine
      · exact htokens token List.mem_cons_self
    · -- a stray is never lost, so it would be left in the end
      obtain ⟨further, hfinal⟩ := hbetween.run hrest
      have hnil := (hfinal.eq_nil hnext).1
      simp at hnil

/-- Closing the parenthesis that has been opened last leaves the machine as it was before it, with
the values that have been pushed since then. -/
theorem close_opened {index : Int} (h : index ∉ base.unbalanced) (value : Value) (place : Int) :
    ((base.opened index).pushValue value).close place = .ok (base.pushValue value) := by
  show strike index (base.unbalanced ++ [index]) >>= _ = _
  rw [strike_append h]
  rfl

/-- What is applied at the end alone, the closing parenthesis applies above another machine. -/
theorem finish_above {index : Int} {value : Value} (hstrays : machine.HasStrays strays)
    (hbase : index ∉ base.unbalanced) (h : machine.finish scope = .ok value) (place : Int) :
    ((machine.above (base.opened index)).drain scope toOpening >>= fun drained =>
        drained.close place) = .ok (base.pushValue value) := by
  obtain ⟨hunbalanced, hdrain⟩ := finish_eq_ok h
  -- no parenthesis waits any more, so both tests hold for everything that is pending
  have hoperators := openings_eq_nil.1 (hstrays.eq_nil hunbalanced).2
  have hsame : machine.drain scope toOpening = machine.drain scope toEnd :=
    drain_congr fun top htop => by rw [toOpening, hoperators top htop]; rfl
  have habove : above ⟨[value], [], []⟩ (base.opened index) =
      (base.opened index).pushValue value := by
    simp [above, pushValue]
  rw [drain_toOpening_above (hsame.trans hdrain), ok_bind, habove]
  exact close_opened hbase value place

/-- A group whose tokens have a value by themselves pushes that value. -/
theorem run_group {opening closing : Token} {value : Value} (hopening : opening.item = .opening "(")
    (hclosing : closing.item = .closing)
    (hrecords : ∀ index ∈ machine.unbalanced, index ∉ (opening :: tokens).map Token.index)
    (hindexes : ((opening :: tokens).map Token.index).Nodup)
    (h : evaluateTokens scope tokens = .ok value) :
    run scope machine (opening :: tokens ++ [closing]) = .ok (machine.pushValue value) := by
  obtain ⟨last, hrun, hfinish⟩ := bind_eq_ok.1 h
  have hopened : opening.index ∉ machine.unbalanced := fun hmem =>
    hrecords _ hmem List.mem_cons_self
  have htokens : ∀ token ∈ tokens, token.index ∉ (machine.opened opening.index).unbalanced := by
    intro token htoken hmem
    have hindex : token.index ∈ tokens.map Token.index := List.mem_map_of_mem htoken
    rcases List.mem_append.1 hmem with hmachine | hself
    · exact hrecords _ hmachine (List.mem_cons_of_mem _ hindex)
    · rw [List.mem_singleton.1 hself] at hindex
      exact (List.nodup_cons.1 hindexes).1 hindex
  have habove : start.above (machine.opened opening.index) = machine.opened opening.index := by
    simp [above, start]
  have hbody : run scope (machine.opened opening.index) tokens =
      .ok (last.above (machine.opened opening.index)) := by
    have hrun' := run_above hasStrays_start (by simp [start]) htokens hrun (finish_eq_ok hfinish).1
    rwa [habove] at hrun'
  have hstep : step scope machine opening = .ok (machine.opened opening.index) :=
    step_of_opening hopening
  obtain ⟨more, hstrays⟩ := hasStrays_start.run hrun
  rw [List.cons_append, run_cons, hstep, ok_bind, run_append, hbody, ok_bind, run_cons,
    step_of_closing hclosing, finish_above hstrays hopened hfinish, ok_bind, run_nil]

end Machine

open Machine Outcome

/-- **Parentheses are compositional**: tokens that have a value by themselves can be put between
parentheses in the place of a literal with that value, whatever tokens come before and after, and
the outcome is the same. The tokens before the group and in it have indexes of their own. -/
theorem evaluateTokens_group (scope : Scope) (l t r : List Token) {opening closing literal : Token}
    {value : Value} (hopening : opening.item = .opening "(") (hclosing : closing.item = .closing)
    (hliteral : literal.item = .literal value)
    (hindexes : ((l ++ opening :: t).map Token.index).Nodup)
    (h : evaluateTokens scope t = .ok value) :
    evaluateTokens scope (l ++ opening :: t ++ closing :: r) =
      evaluateTokens scope (l ++ literal :: r) := by
  rw [List.map_append, List.nodup_append] at hindexes
  obtain ⟨-, hgroup, hdisjoint⟩ := hindexes
  -- up to the group both runs are the same, and after it they go on from the same machine
  have hbefore : ∀ machine, Machine.start.run scope l = .ok machine →
      machine.run scope (opening :: t ++ closing :: r) = machine.run scope (literal :: r) := by
    intro machine hrun
    have hrecords : ∀ index ∈ machine.unbalanced, index ∉ (opening :: t).map Token.index := by
      intro index hmem hindex
      rcases mem_unbalanced_of_run hrun hmem with hstart | hl
      · cases hstart
      · exact hdisjoint index hl index hindex rfl
    rw [List.append_cons, run_append, run_group hopening hclosing hrecords hgroup h, ok_bind,
      run_cons, step_of_literal hliteral, ok_bind]
  unfold evaluateTokens
  rw [List.append_assoc, run_append, run_append]
  cases hrun : Machine.start.run scope l with
  | error fault => rfl
  | ok machine => rw [ok_bind, ok_bind, hbefore machine hrun]

/-- In `) 2 * ( 1 + 3 ) - (` the group can be replaced, although what stands around it is unbalanced.
-/
theorem evaluateTokens_group_sum :
    let l : List Token := [⟨.closing, ")", 0⟩, ⟨.literal (.int 2), "2", 1⟩, ⟨.operator "*", "*", 2⟩]
    let t : List Token := [⟨.literal (.int 1), "1", 4⟩, ⟨.operator "+", "+", 5⟩,
      ⟨.literal (.int 3), "3", 6⟩]
    let r : List Token := [⟨.operator "-", "-", 8⟩, ⟨.opening "(", "(", 9⟩]
    let scope : Scope := ⟨1000, .null, .standard, ""⟩
    ((l ++ ⟨.opening "(", "(", 3⟩ :: t).map Token.index).Nodup ∧
      evaluateTokens scope t = .ok (.int 4) ∧
      evaluateTokens scope (l ++ ⟨.opening "(", "(", 3⟩ :: t ++ ⟨.closing, ")", 7⟩ :: r) =
        .error (.unbalanced [0, 9] "") := by
  intro l t r scope
  have hindexes : ((l ++ ⟨.opening "(", "(", 3⟩ :: t).map Token.index).Nodup := by decide
  have ht : evaluateTokens scope t = .ok (.int 4) := rfl
  have hliteral : (⟨.literal (.int 4), "4", 3⟩ : Token).item = .literal (.int 4) := rfl
  exact ⟨hindexes, ht, (evaluateTokens_group scope l t r rfl rfl hliteral hindexes ht).trans rfl⟩

end Criteria
