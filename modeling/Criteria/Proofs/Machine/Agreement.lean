import Mathlib.Data.List.Forall2
import Criteria.Proofs.Machine.Frame

/-!
# Runs that differ in places only

Two machines agree if they have the same values, and what waits in one waits in the other, at
whatever places. Such machines do the same with tokens that stand for the same, and fail for the same
reason if they fail: the places and the expression matter only for what a fault says of them.

* `agree_step`, `agree_finish`: a step and the end lead to outcomes that agree;
* `Expands`: tokens some of whose operands have been replaced by groups with the same values. A group
  does what its operand does, so the runs agree (`agree_run`).
-/

namespace Criteria

namespace Machine

open Outcome

variable {scope wider : Scope} {machine other next drained : Machine} {token corresponding : Token}
  {tokens others : List Token} {test : Pending → Except Fault Bool} {values : List Value}
  {top waiting : Pending} {pending rest : List Pending} {strays left unbalanced : List Int}

/-- Whether the same waits, at whatever places. -/
def AgreeOn (top waiting : Pending) : Prop :=
  top.symbol = waiting.symbol ∧ top.isOpening = waiting.isOpening

/-- Two machines agree but for the places of what waits and of the records. -/
structure Agree (machine other : Machine) : Prop where
  values : machine.values = other.values
  pending : List.Forall₂ AgreeOn machine.pending other.pending
  records : machine.unbalanced.length = other.unbalanced.length

/-! ### Applying and draining -/

theorem agree_applyPending (hnesting : scope.nesting = wider.nesting) (h : AgreeOn top waiting)
    (values : List Value) :
    Outcome.Agree Eq (applyPending scope top values) (applyPending wider waiting values) := by
  have hfail : ∀ cause,
      (failAt scope top cause).unplaced = (failAt wider waiting cause).unplaced := by
    intro cause
    rw [failAt, failAt, h.1]
    rfl
  unfold applyPending
  rw [h.1]
  cases Operator.ofSymbol? waiting.symbol with
  | none => exact .error rfl
  | some operator =>
    simp only
    split
    · exact .error (hfail _)
    · refine (Agree.refl _).bind fun taken _ _ _ htaken => ?_
      cases htaken
      rw [hnesting]
      cases operator.apply wider.nesting taken.1 with
      | error cause => exact .error (hfail cause)
      | ok result => exact .ok rfl

/-- Draining leads to machines that agree, if its test looks at no places. -/
theorem agree_drain (hnesting : scope.nesting = wider.nesting)
    (htest : ∀ top waiting, AgreeOn top waiting → test top = test waiting)
    (h : machine.Agree other) :
    Outcome.Agree Agree (machine.drain scope test) (other.drain wider test) := by
  obtain ⟨values, pending, unbalanced⟩ := machine
  obtain ⟨values', pending', unbalanced'⟩ := other
  obtain ⟨hvalues, hpending, hrecords⟩ := h
  cases hvalues
  change List.Forall₂ AgreeOn pending pending' at hpending
  induction hpending generalizing values with
  | nil => exact .ok ⟨rfl, .nil, hrecords⟩
  | @cons top waiting rest rest' htop hrest ih =>
    rw [drain_cons, drain_cons, htest top waiting htop]
    refine (Agree.refl _).bind fun passes _ _ _ hpasses => ?_
    cases hpasses
    cases passes with
    | false => exact .ok ⟨rfl, .cons htop hrest, hrecords⟩
    | true =>
      refine (agree_applyPending hnesting htop values).bind fun applied _ _ _ happlied => ?_
      cases happlied
      exact ih applied hrecords

theorem toOpening_congr (h : AgreeOn top waiting) : toOpening top = toOpening waiting := by
  rw [toOpening, toOpening, h.2]

theorem before_congr (symbol : String) (h : AgreeOn top waiting) :
    before symbol top = before symbol waiting := by
  rw [before, before, h.1]

/-! ### Steps -/

namespace Agree

theorem push (h : machine.Agree other) (htop : AgreeOn top waiting) :
    (machine.push top).Agree (other.push waiting) :=
  ⟨h.values, .cons htop h.pending, h.records⟩

theorem pushValue (h : machine.Agree other) (value : Value) :
    (machine.pushValue value).Agree (other.pushValue value) :=
  ⟨congrArg (value :: ·) h.values, h.pending, h.records⟩

theorem record (h : machine.Agree other) (index place : Int) :
    (machine.record index).Agree (other.record place) where
  values := h.values
  pending := h.pending
  records := by
    show (machine.unbalanced ++ [index]).length = (other.unbalanced ++ [place]).length
    rw [List.length_append, List.length_append, h.records]
    rfl

end Agree

/-- Closing a parenthesis that waits removes one record. -/
theorem close_of_hasStrays (h : HasStrays ⟨values, top :: rest, unbalanced⟩ strays)
    (htop : top.isOpening = true) (index : Int) :
    ∃ struck, close ⟨values, top :: rest, unbalanced⟩ index = .ok ⟨values, rest, struck⟩ ∧
      struck.length = unbalanced.length - 1 := by
  obtain ⟨struck, hclose, -⟩ := h.close htop index
  refine ⟨struck, hclose, ?_⟩
  rw [close_cons] at hclose
  obtain ⟨erased, hstrike, hnext⟩ := bind_eq_ok.1 hclose
  cases hnext
  obtain ⟨hmem, herased⟩ := strike_eq_ok.1 hstrike
  rw [herased, List.length_erase_of_mem hmem]

theorem agree_close (h : machine.Agree other) (hstrays : machine.HasStrays strays)
    (hleft : other.HasStrays left) (hhead : ∀ top ∈ machine.pending.head?, top.isOpening = true)
    (index place : Int) :
    Outcome.Agree Agree (machine.close index) (other.close place) := by
  obtain ⟨values, pending, unbalanced⟩ := machine
  obtain ⟨values', pending', unbalanced'⟩ := other
  obtain ⟨hvalues, hpending, hrecords⟩ := h
  cases hvalues
  cases hpending with
  | nil =>
    have hagree : Agree ⟨values, [], unbalanced⟩ ⟨values, [], unbalanced'⟩ := ⟨rfl, .nil, hrecords⟩
    exact .ok (hagree.record index place)
  | @cons top waiting rest rest' htop hrest =>
    have hopening := hhead top rfl
    obtain ⟨struck, hclose, hstruck⟩ := close_of_hasStrays hstrays hopening index
    obtain ⟨struck', hclose', hstruck'⟩ := close_of_hasStrays hleft (htop.2 ▸ hopening) place
    rw [hclose, hclose']
    refine .ok ⟨rfl, hrest, ?_⟩
    show struck.length = struck'.length
    rw [hstruck, hstruck']
    exact congrArg (· - 1) hrecords

/-- Machines that agree do the same with tokens that stand for the same. -/
theorem agree_step (hnesting : scope.nesting = wider.nesting) (h : machine.Agree other)
    (hstrays : machine.HasStrays strays) (hleft : other.HasStrays left)
    (hitem : token.item = corresponding.item)
    (hvalue : ∀ operand, token.operand? = some operand →
      operand.value scope = operand.value wider) :
    Outcome.Agree Agree (step scope machine token) (step wider other corresponding) := by
  rcases token.item_cases with ⟨operand, hoperand⟩ | ⟨symbol, htoken⟩ | htoken | ⟨symbol, htoken⟩
  · have hcorresponding : corresponding.operand? = some operand := by
      rw [← hoperand, Token.operand?, Token.operand?, hitem]
    rw [step_of_operand hoperand, step_of_operand hcorresponding, hvalue operand hoperand]
    refine (Agree.refl _).bind fun value _ _ _ hsame => ?_
    cases hsame
    exact .ok (h.pushValue value)
  · have htop : AgreeOn ⟨symbol, token.index, true⟩ ⟨symbol, corresponding.index, true⟩ :=
      ⟨rfl, rfl⟩
    rw [step_of_opening htoken, step_of_opening (hitem ▸ htoken)]
    exact .ok ((h.push htop).record _ _)
  · rw [step_of_closing htoken, step_of_closing (hitem ▸ htoken)]
    refine (agree_drain hnesting (fun _ _ => toOpening_congr) h).bind
      fun drained _ hdrain hdrain' hagree => ?_
    obtain ⟨more, hmore⟩ := hstrays.drain hdrain
    obtain ⟨more', hmore'⟩ := hleft.drain hdrain'
    obtain ⟨-, -, -, -, hhead⟩ := drain_toOpening_eq_ok hdrain
    exact agree_close hagree hmore hmore' hhead _ _
  · have htop : AgreeOn ⟨symbol, token.index, false⟩ ⟨symbol, corresponding.index, false⟩ :=
      ⟨rfl, rfl⟩
    rw [step_of_operator htoken, step_of_operator (hitem ▸ htoken)]
    have hdrain := agree_drain hnesting (fun _ _ => before_congr symbol) h
    exact hdrain.bind fun _ _ _ _ hagree => .ok (hagree.push htop)

/-! ### Runs -/

/-- Tokens that stand for the same in two scopes, but for operands in whose place there is a group of
tokens with the same value. -/
inductive Expands (scope wider : Scope) : List Token → List Token → Prop
  | nil : Expands scope wider [] []
  | token {token corresponding : Token} {tokens others : List Token}
    (hitem : token.item = corresponding.item)
    (hvalue : ∀ operand, token.operand? = some operand →
      operand.value scope = operand.value wider)
    (h : Expands scope wider tokens others) :
    Expands scope wider (token :: tokens) (corresponding :: others)
  | group {token opening closing : Token} {body tokens others : List Token} {operand : Operand}
    {value : Value} (hoperand : token.operand? = some operand)
    (hvalue : operand.value scope = .ok value) (hopening : opening.item = .opening "(")
    (hclosing : closing.item = .closing) (hbody : evaluateTokens wider body = .ok value)
    (h : Expands scope wider tokens others) :
    Expands scope wider (token :: tokens) (opening :: body ++ closing :: others)

/-- Machines that agree do the same with tokens that have been expanded. -/
theorem agree_run (hnesting : scope.nesting = wider.nesting)
    (hexpands : Expands scope wider tokens others) (h : machine.Agree other)
    (hstrays : machine.HasStrays strays) (hleft : other.HasStrays left)
    (hindexes : (others.map Token.index).Nodup)
    (hrecords : ∀ index ∈ other.unbalanced, index ∉ others.map Token.index) :
    Outcome.Agree Agree (run scope machine tokens) (run wider other others) := by
  induction hexpands generalizing machine other strays left with
  | nil => exact .ok h
  | @token token corresponding tokens others hitem hvalue hexpands ih =>
    rw [List.map_cons, List.nodup_cons] at hindexes
    rw [run_cons, run_cons]
    refine (agree_step hnesting h hstrays hleft hitem hvalue).bind
      fun next next' hstep hstep' hnext => ?_
    obtain ⟨more, hmore⟩ := hstrays.step hstep
    obtain ⟨more', hmore'⟩ := hleft.step hstep'
    refine ih hnext hmore hmore' hindexes.2 fun index hindex hmem => ?_
    rcases mem_unbalanced_of_step hstep' hindex with hother | rfl
    · exact hrecords index hother (List.mem_cons_of_mem _ hmem)
    · exact hindexes.1 hmem
  | @group token opening closing body tokens others operand value hoperand hvalue hopening hclosing
      hbody hexpands ih =>
    rw [List.map_append, List.nodup_append] at hindexes
    obtain ⟨hgroup, hrest, -⟩ := hindexes
    have hothers : (others.map Token.index).Nodup := (List.nodup_cons.1 hrest).2
    rw [List.map_append] at hrecords
    have hrun : run wider other (opening :: body ++ [closing]) = .ok (other.pushValue value) :=
      run_group hopening hclosing
        (fun index hindex hmem => hrecords index hindex (List.mem_append_left _ hmem)) hgroup hbody
    rw [run_cons, step_of_operand hoperand, hvalue, ok_bind, ok_bind, List.append_cons, run_append,
      hrun, ok_bind]
    exact ih (h.pushValue value) hstrays hleft hothers fun index hindex hmem =>
      hrecords index hindex (List.mem_append_right _ (List.mem_cons_of_mem _ hmem))

/-- Machines that agree end alike. -/
theorem agree_finish (hnesting : scope.nesting = wider.nesting) (h : machine.Agree other) :
    Outcome.Agree Eq (machine.finish scope) (other.finish wider) := by
  have hempty : machine.unbalanced.isEmpty = other.unbalanced.isEmpty := by
    rw [Bool.eq_iff_iff, List.isEmpty_iff_length_eq_zero, List.isEmpty_iff_length_eq_zero, h.records]
  unfold finish
  rw [hempty]
  split
  · refine (agree_drain hnesting (fun _ _ _ => rfl) h).bind fun drained drained' _ _ hagree => ?_
    rw [hagree.values]
    unfold onlyValue
    split
    · exact .ok rfl
    · exact .error rfl
  · refine .error ?_
    rw [Fault.unplaced, Fault.unplaced, List.map_const', List.map_const', h.records]

end Machine

open Machine Outcome

/-- Tokens that have been expanded have the outcome that they had, but for places. -/
theorem agree_evaluateTokens {scope wider : Scope} {tokens others : List Token}
    (h : Expands scope wider tokens others) (hnesting : scope.nesting = wider.nesting)
    (hindexes : (others.map Token.index).Nodup) :
    Outcome.Agree Eq (evaluateTokens scope tokens) (evaluateTokens wider others) := by
  have hstart : start.Agree start := ⟨rfl, .nil, rfl⟩
  have hrun := agree_run hnesting h hstart hasStrays_start hasStrays_start hindexes (by simp [start])
  exact hrun.bind fun machine other _ _ hagree => agree_finish hnesting hagree

end Criteria
