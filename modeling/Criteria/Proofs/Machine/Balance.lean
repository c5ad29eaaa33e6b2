import Criteria.Proofs.Machine.Origin
import Criteria.Proofs.Pairing

/-!
# The report of unbalanced parentheses

If all indexes are different, the records of the machine are exactly the parentheses without a
partner, and the opening ones among them are those that wait:

* `Leaves`: this as an invariant; `Leaves.step`, `Leaves.run`: a step keeps it with the parentheses
  paired once more, and a run with all of them paired;
* `evaluateTokens_unbalanced_iff`: so a run that reaches its end reports the parentheses without a
  partner, all of them and no others, in the order in which they occur.
-/

namespace Criteria

open Machine Outcome Parenthesis

variable {scope : Scope} {machine next drained : Machine} {token : Token}
  {tokens rest : List Token} {test : Pending → Except Fault Bool} {left : List Parenthesis}

namespace Machine

/-- Draining leaves the opening parentheses that wait where they are, if its test holds for none. -/
theorem openings_of_drain
    (hopening : ∀ top ∈ machine.pending, top.isOpening = true → test top ≠ .ok true)
    (h : machine.drain scope test = .ok drained) :
    openings drained.pending = openings machine.pending := by
  obtain ⟨applied, hpending, -, happlied, -⟩ := drain_eq_ok h
  have hnone : openings applied = [] := openings_eq_nil.2 fun top htop => by
    have hmem : top ∈ machine.pending := hpending ▸ List.mem_append_left _ htop
    exact Bool.eq_false_iff.2 fun h => hopening top hmem h (happlied top htop)
  rw [hpending, openings_append, hnone, List.nil_append]

/-- The records are the parentheses without a partner, in the order in which they occur, and those of
them that are opening wait, the latest on top. The parentheses are listed from the latest on. -/
structure Leaves (machine : Machine) (left : List Parenthesis) : Prop where
  records : machine.unbalanced = (left.map Parenthesis.index).reverse
  waiting : openings machine.pending = (left.filter isOpening).map Parenthesis.index

theorem leaves_start : start.Leaves [] := ⟨rfl, rfl⟩

namespace Leaves

theorem drain (h : machine.Leaves left)
    (hopenings : openings drained.pending = openings machine.pending)
    (hdrain : machine.drain scope test = .ok drained) : drained.Leaves left where
  records := by
    obtain ⟨-, -, hunbalanced, -, -⟩ := drain_eq_ok hdrain
    rw [hunbalanced, h.records]
  waiting := by rw [hopenings, h.waiting]

theorem opening (h : machine.Leaves left) (symbol : String) (index : Int) :
    ((machine.push ⟨symbol, index, true⟩).record index).Leaves (⟨.opening, index⟩ :: left) where
  records := by
    show machine.unbalanced ++ [index] = _
    rw [h.records, List.map_cons, List.reverse_cons]
  waiting := by
    show index :: openings machine.pending = _
    rw [h.waiting]
    rfl

/-- A closing parenthesis is paired with the one on top, or else it is recorded. -/
theorem close (h : machine.Leaves left) (hnodup : (left.map Parenthesis.index).Nodup)
    (hhead : ∀ top ∈ machine.pending.head?, top.isOpening = true) {index : Int}
    (hclose : machine.close index = .ok next) : next.Leaves (pairNext left ⟨.closing, index⟩) := by
  obtain ⟨values, _ | ⟨top, rest⟩, unbalanced⟩ := machine
  · -- nothing waits, so none of the parentheses without a partner is opening
    have hnone : left.any isOpening = false := by
      have hfilter := List.map_eq_nil_iff.1 h.waiting.symm
      simpa [List.filter_eq_nil_iff] using hfilter
    cases hclose
    rw [pairNext_closing_of_not hnone]
    constructor
    · show unbalanced ++ [index] = _
      rw [show unbalanced = _ from h.records, List.map_cons, List.reverse_cons]
    · exact h.waiting
  · have hwaiting : top.index :: openings rest = (left.filter isOpening).map Parenthesis.index := by
      rw [← openings_cons_of_true (hhead top rfl)]
      exact h.waiting
    have hany : left.any isOpening = true := by
      cases hany : left.any isOpening with
      | true => rfl
      | false =>
        have hfilter : left.filter isOpening = [] := by simpa [List.filter_eq_nil_iff] using hany
        rw [hfilter] at hwaiting
        cases hwaiting
    obtain ⟨opening, later, earlier, rfl, hopening, hlater, hnext⟩ := pairNext_closing hany index
    have hfilter : later.filter isOpening = [] := by simpa [List.filter_eq_nil_iff] using hlater
    rw [List.filter_append, hfilter, List.nil_append, List.filter_cons_of_pos hopening,
      List.map_cons, List.cons.injEq] at hwaiting
    obtain ⟨struck, hstrike, hrest⟩ := bind_eq_ok.1 hclose
    cases hrest
    rw [hnext]
    constructor
    · -- the indexes are all different, so it is the record of the opening one that is removed
      have hrecords : unbalanced = (earlier.map Parenthesis.index).reverse ++
          top.index :: (later.map Parenthesis.index).reverse := by
        rw [show unbalanced = _ from h.records, hwaiting.1]
        simp
      have hfresh : top.index ∉ (earlier.map Parenthesis.index).reverse := by
        rw [List.map_append, List.map_cons, List.nodup_append, List.nodup_cons] at hnodup
        rw [List.mem_reverse, hwaiting.1]
        exact hnodup.2.1.1
      show struck = _
      rw [(strike_eq_ok.1 hstrike).2, hrecords, List.erase_append_right _ hfresh,
        List.erase_cons_head, List.map_append, List.reverse_append]
    · show openings rest = _
      rw [List.filter_append, hfilter, List.nil_append, hwaiting.2]

/-- A step pairs the parenthesis that it takes, if it takes one. -/
theorem step (h : machine.Leaves left) (hnodup : (left.map Parenthesis.index).Nodup)
    (htokens : ∀ token ∈ tokens, token.item.IsRegistered) (hfrom : machine.IsFrom tokens)
    (hstep : step scope machine token = .ok next) :
    next.Leaves (token.parenthesis?.toList.foldl pairNext left) := by
  unfold Token.parenthesis?
  cases hitem : token.item with
  | opening symbol =>
    rw [step_of_opening hitem] at hstep
    cases hstep
    exact h.opening symbol token.index
  | closing =>
    rw [step_of_closing hitem] at hstep
    obtain ⟨drained, hdrain, hclose⟩ := bind_eq_ok.1 hstep
    obtain ⟨-, -, -, -, hhead⟩ := drain_toOpening_eq_ok hdrain
    have hopenings := openings_of_drain (fun top _ htop => by simp [toOpening, htop]) hdrain
    exact (h.drain hopenings hdrain).close hnodup hhead hclose
  | operator symbol =>
    rw [step_of_operator hitem] at hstep
    obtain ⟨drained, hdrain, hpush⟩ := bind_eq_ok.1 hstep
    cases hpush
    -- an opening parenthesis is a barrier for every operator
    have hbarrier : ∀ top ∈ machine.pending, top.isOpening = true →
        before symbol top ≠ .ok true := by
      intro top htop hisOpening
      rcases hfrom.cases htokens htop with ⟨-, hsymbol⟩ | ⟨_, -, _, -, rfl⟩
      · rw [before, hsymbol, hasPrecedence_opening]
        rintro ⟨⟩
      · cases hisOpening
    have hdrained := h.drain (openings_of_drain hbarrier hdrain) hdrain
    exact ⟨hdrained.records, hdrained.waiting⟩
  | literal value =>
    rw [step_of_literal hitem] at hstep
    cases hstep
    exact ⟨h.records, h.waiting⟩
  | path path =>
    rw [step_of_path hitem] at hstep
    obtain ⟨value, -, hpush⟩ := bind_eq_ok.1 hstep
    cases hpush
    exact ⟨h.records, h.waiting⟩

/-- What is left without a partner was left before, or has just been taken. -/
theorem index_sublist (left : List Parenthesis) (token : Token) :
    ((token.parenthesis?.toList.foldl pairNext left).map Parenthesis.index).Sublist
      (token.index :: left.map Parenthesis.index) := by
  cases hp : token.parenthesis? with
  | none => exact List.sublist_cons_self _ _
  | some p =>
    rw [← index_of_parenthesis? hp]
    exact (pairNext_sublist left p).map Parenthesis.index

/-- A run pairs all the parentheses that it takes. -/
theorem run (h : machine.Leaves left)
    (hnodup : (left.map Parenthesis.index ++ rest.map Token.index).Nodup)
    (htokens : ∀ token ∈ tokens, token.item.IsRegistered) (hfrom : machine.IsFrom tokens)
    (hrest : ∀ token ∈ rest, token ∈ tokens) (hrun : run scope machine rest = .ok next) :
    next.Leaves ((Token.parentheses rest).foldl pairNext left) := by
  induction rest generalizing machine left with
  | nil =>
    cases hrun
    exact h
  | cons token rest ih =>
    obtain ⟨between, hstep, hnext⟩ := bind_eq_ok.1 hrun
    have hbetween := h.step (List.nodup_append.1 hnodup).1 htokens hfrom hstep
    have hpaired : ((token.parenthesis?.toList.foldl pairNext left).map Parenthesis.index ++
        rest.map Token.index).Nodup := by
      have hperm : (left.map Parenthesis.index ++ (token :: rest).map Token.index).Perm
          (token.index :: left.map Parenthesis.index ++ rest.map Token.index) :=
        List.perm_middle
      exact (hperm.nodup_iff.1 hnodup).sublist ((index_sublist left token).append_right _)
    rw [parentheses_cons, List.foldl_append]
    exact ih hbetween hpaired (hfrom.step (hrest token List.mem_cons_self) hstep)
      (fun other hother => hrest other (List.mem_cons_of_mem _ hother)) hnext

end Leaves

/-- Tokens of different indexes leave the records of the parentheses without a partner. -/
theorem unbalanced_of_run (htokens : ∀ token ∈ tokens, token.item.IsRegistered)
    (hindexes : (tokens.map Token.index).Nodup) (hrun : start.run scope tokens = .ok machine) :
    machine.unbalanced = (unpaired (Token.parentheses tokens)).map Parenthesis.index := by
  have hleaves := leaves_start.run hindexes htokens (isFrom_start tokens) (fun _ h => h) hrun
  rw [hleaves.records, unpaired, List.map_reverse]

end Machine

/-- **The report of unbalanced parentheses is exact**: classified tokens of different indexes have no
value if a parenthesis among them has no partner. Taking them fails only on behalf of a path that
cannot be followed or an operator that cannot be applied; otherwise the fault at the end is one of
parentheses exactly if some of them have no partner, and it lists these in their order. -/
theorem evaluateTokens_unbalanced_iff (scope : Scope) (tokens : List Token)
    (hclassified : ∀ token ∈ tokens, token.IsClassified)
    (hindexes : (tokens.map Token.index).Nodup) :
    (unpaired (Token.parentheses tokens) ≠ [] → ∀ value, evaluateTokens scope tokens ≠ .ok value) ∧
    (∀ fault, start.run scope tokens = .error fault → Interrupts scope tokens fault) ∧
    ∀ machine, start.run scope tokens = .ok machine → ∀ indexes text,
      evaluateTokens scope tokens = .error (.unbalanced indexes text) ↔
        unpaired (Token.parentheses tokens) ≠ [] ∧
          indexes = (unpaired (Token.parentheses tokens)).map Parenthesis.index ∧
            text = scope.expression := by
  have htokens : ∀ token ∈ tokens, token.item.IsRegistered := fun token hmem =>
    (hclassified token hmem).isRegistered
  have hrecords : ∀ machine, start.run scope tokens = .ok machine →
      machine.unbalanced = (unpaired (Token.parentheses tokens)).map Parenthesis.index :=
    fun machine hrun => unbalanced_of_run htokens hindexes hrun
  refine ⟨fun hleft value hvalue => ?_, fun fault hrun => ?_, fun machine hrun indexes text => ?_⟩
  · obtain ⟨machine, hrun, hfinish⟩ := bind_eq_ok.1 hvalue
    have hnil := (hrecords machine hrun).symm.trans (finish_eq_ok hfinish).1
    exact hleft (List.map_eq_nil_iff.1 hnil)
  · exact interrupts_of_run htokens hrun
  · rw [evaluateTokens, hrun, ok_bind, finish_eq_unbalanced_iff, hrecords machine hrun, Ne,
      List.map_eq_nil_iff]

/-- In `) 2 * ( ( 1 )` the first parenthesis and the second one are reported. -/
theorem evaluateTokens_unbalanced_iff_product :
    let tokens : List Token := [⟨.closing, ")", 0⟩, ⟨.literal (.int 2), "2", 1⟩,
      ⟨.operator "*", "*", 2⟩, ⟨.opening "(", "(", 3⟩, ⟨.opening "(", "(", 4⟩,
      ⟨.literal (.int 1), "1", 5⟩, ⟨.closing, ")", 6⟩]
    let scope : Scope := ⟨1000, .null, .standard, ""⟩
    (∀ token ∈ tokens, token.IsClassified) ∧ (tokens.map Token.index).Nodup ∧
      evaluateTokens scope tokens = .error (.unbalanced [0, 3] "") := by
  intro tokens scope
  have hclassify : Token.classifyFrom 0 [[')'], ['2'], ['*'], ['('], ['('], ['1'], [')']] =
      .ok tokens := rfl
  have hclassified := Token.isClassified_of_classifyFrom hclassify
  have hindexes : (tokens.map Token.index).Nodup := by decide
  refine ⟨hclassified, hindexes, ?_⟩
  exact ((evaluateTokens_unbalanced_iff scope tokens hclassified hindexes).2.2 _ rfl _ _).2
    ⟨by decide, by decide, rfl⟩

end Criteria
