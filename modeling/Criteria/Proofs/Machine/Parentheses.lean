import Criteria.Proofs.Machine.Step

/-!
# Parentheses and their records

The machine records the index of every parenthesis that has no partner yet. An opening one waits and
is recorded at the same time; a record that belongs to no parenthesis that waits is a *stray*, for
instance that of a closing parenthesis that came too early.

* `HasStrays`: the records are those of the opening parentheses that wait, and the strays;
* `HasStrays.step`, `HasStrays.run`: a step or a run may add strays and loses none. So an expression
  with a stray is unbalanced in the end, and no record is missing when a parenthesis is closed;
* `mem_unbalanced_of_step`, `mem_unbalanced_of_run`: only indexes of tokens are recorded.
-/

namespace Criteria.Machine

open Outcome

variable {scope : Scope} {machine next drained : Machine} {token : Token} {tokens : List Token}
  {test : Pending → Except Fault Bool} {values : List Value} {top : Pending}
  {pending rest : List Pending} {strays unbalanced recorded : List Int} {index : Int}

/-! ### Records -/

theorem strike_append (h : index ∉ recorded) : strike index (recorded ++ [index]) = .ok recorded := by
  rw [strike, if_pos (by simp), List.erase_append_right _ h]
  simp

theorem strike_eq_ok {struck : List Int} :
    strike index recorded = .ok struck ↔ index ∈ recorded ∧ struck = recorded.erase index := by
  rw [strike]
  split <;> simp_all [eq_comm]

/-- Earlier records of other parentheses do not matter. -/
theorem strike_append_left (h : index ∉ recorded) :
    strike index (recorded ++ unbalanced) =
      strike index unbalanced >>= fun struck => .ok (recorded ++ struck) := by
  by_cases hmem : index ∈ unbalanced
  · rw [strike, strike, if_pos hmem, if_pos (List.mem_append_right _ hmem),
      List.erase_append_right _ h]
    rfl
  · have hnot : index ∉ recorded ++ unbalanced := by simp [h, hmem]
    rw [strike, strike, if_neg hmem, if_neg hnot]
    rfl

theorem close_cons (index : Int) :
    close ⟨values, top :: rest, unbalanced⟩ index =
      strike top.index unbalanced >>= fun struck => .ok ⟨values, rest, struck⟩ := rfl

/-- A closing parenthesis takes back what the opening one has left. -/
theorem close_of_recorded (h : top.index ∉ unbalanced) (index : Int) :
    close ⟨values, top :: rest, unbalanced ++ [top.index]⟩ index =
      .ok ⟨values, rest, unbalanced⟩ := by
  rw [close_cons, strike_append h, ok_bind]

/-! ### Strays -/

/-- The indexes of the opening parentheses among what is pending. -/
def openings (pending : List Pending) : List Int :=
  (pending.filter (·.isOpening)).map (·.index)

theorem openings_append (front back : List Pending) :
    openings (front ++ back) = openings front ++ openings back := by
  rw [openings, List.filter_append, List.map_append]
  rfl

theorem openings_cons_of_true (h : top.isOpening = true) :
    openings (top :: rest) = top.index :: openings rest := by
  rw [openings, List.filter_cons_of_pos h]
  rfl

theorem openings_eq_nil : openings pending = [] ↔ ∀ top ∈ pending, top.isOpening = false := by
  simp [openings, List.filter_eq_nil_iff]

/-- The records are those of the opening parentheses that wait, and the strays. -/
def HasStrays (machine : Machine) (strays : List Int) : Prop :=
  machine.unbalanced.Perm (openings machine.pending ++ strays)

theorem hasStrays_start : start.HasStrays [] := List.Perm.refl []

namespace HasStrays

/-- Without records there are no strays, and only operators wait. -/
theorem eq_nil (h : machine.HasStrays strays) (hunbalanced : machine.unbalanced = []) :
    strays = [] ∧ openings machine.pending = [] := by
  have hnil : openings machine.pending ++ strays = [] := by
    rw [HasStrays, hunbalanced] at h
    exact List.nil_perm.1 h
  exact (List.append_eq_nil_iff.1 hnil).symm

/-- A parenthesis that is applied in the place of an operator leaves its record behind. -/
theorem drain (h : machine.HasStrays strays) (hdrain : machine.drain scope test = .ok drained) :
    ∃ more, drained.HasStrays (more ++ strays) := by
  obtain ⟨applied, hpending, hunbalanced, -, -⟩ := drain_eq_ok hdrain
  -- the records stay as they are, so those of what has been applied become strays
  refine ⟨openings applied, ?_⟩
  rw [HasStrays, hpending, openings_append, List.append_assoc] at h
  rw [HasStrays, hunbalanced]
  exact h.trans (List.perm_append_comm_assoc _ _ _)

/-- A parenthesis that waits has a record, so it can be closed. -/
theorem close (h : HasStrays ⟨values, top :: rest, unbalanced⟩ strays) (htop : top.isOpening = true)
    (index : Int) :
    ∃ struck, Machine.close ⟨values, top :: rest, unbalanced⟩ index = .ok ⟨values, rest, struck⟩ ∧
      HasStrays ⟨values, rest, struck⟩ strays := by
  have hperm : unbalanced.Perm (top.index :: (openings rest ++ strays)) := by
    rw [HasStrays, openings_cons_of_true htop] at h
    exact h
  have hmem : top.index ∈ unbalanced := hperm.mem_iff.2 List.mem_cons_self
  refine ⟨unbalanced.erase top.index, ?_, ?_⟩
  · rw [close_cons, strike, if_pos hmem, ok_bind]
  · have herase := hperm.erase top.index
    rwa [List.erase_cons_head] at herase

/-- A closing parenthesis that finds nothing pending is a stray. -/
theorem close_nil (h : HasStrays ⟨values, [], unbalanced⟩ strays) (index : Int) :
    HasStrays ⟨values, [], unbalanced ++ [index]⟩ (index :: strays) :=
  (List.perm_append_singleton index unbalanced).trans (h.cons index)

/-- A step may add strays, and loses none. -/
theorem step (h : machine.HasStrays strays) (hstep : step scope machine token = .ok next) :
    ∃ more, next.HasStrays (more ++ strays) := by
  rcases step_cases hstep with ⟨symbol, -, rfl⟩ | ⟨-, drained, hdrain, hclose⟩ |
    ⟨symbol, -, drained, hdrain, rfl⟩ | ⟨value, rfl, -⟩
  · exact ⟨[], (List.perm_append_singleton _ _).trans (h.cons token.index)⟩
  · obtain ⟨more, hdrained⟩ := h.drain hdrain
    obtain ⟨-, -, -, -, hhead⟩ := drain_toOpening_eq_ok hdrain
    obtain ⟨values, _ | ⟨top, rest⟩, unbalanced⟩ := drained
    · cases hclose
      exact ⟨token.index :: more, hdrained.close_nil token.index⟩
    · obtain ⟨struck, hstruck, hnext⟩ := hdrained.close (hhead top rfl) token.index
      rw [hstruck] at hclose
      cases hclose
      exact ⟨more, hnext⟩
  · obtain ⟨more, hdrained⟩ := h.drain hdrain
    exact ⟨more, hdrained⟩
  · exact ⟨[], h⟩

/-- A run may add strays, and loses none. -/
theorem run (h : machine.HasStrays strays) (hrun : run scope machine tokens = .ok next) :
    ∃ more, next.HasStrays (more ++ strays) := by
  induction tokens generalizing machine strays with
  | nil =>
    cases hrun
    exact ⟨[], h⟩
  | cons token tokens ih =>
    obtain ⟨between, hstep, hrest⟩ := bind_eq_ok.1 hrun
    obtain ⟨first, hbetween⟩ := h.step hstep
    obtain ⟨second, hnext⟩ := ih hbetween hrest
    rw [← List.append_assoc] at hnext
    exact ⟨second ++ first, hnext⟩

end HasStrays

/-! ### Whose records there are -/

theorem mem_unbalanced_of_close (h : machine.close index = .ok next) {other : Int}
    (hother : other ∈ next.unbalanced) : other ∈ machine.unbalanced ∨ other = index := by
  obtain ⟨values, _ | ⟨top, rest⟩, unbalanced⟩ := machine
  · cases h
    simpa [record] using hother
  · obtain ⟨struck, hstrike, hnext⟩ := bind_eq_ok.1 h
    cases hnext
    rw [(strike_eq_ok.1 hstrike).2] at hother
    exact Or.inl (List.mem_of_mem_erase hother)

theorem mem_unbalanced_of_step (h : step scope machine token = .ok next) {other : Int}
    (hother : other ∈ next.unbalanced) : other ∈ machine.unbalanced ∨ other = token.index := by
  rcases step_cases h with ⟨symbol, -, rfl⟩ | ⟨-, drained, hdrain, hclose⟩ |
    ⟨symbol, -, drained, hdrain, rfl⟩ | ⟨value, rfl, -⟩
  · simpa [record, push] using hother
  · obtain ⟨-, -, hunbalanced, -, -⟩ := drain_eq_ok hdrain
    rw [← hunbalanced]
    exact mem_unbalanced_of_close hclose hother
  · obtain ⟨-, -, hunbalanced, -, -⟩ := drain_eq_ok hdrain
    rw [← hunbalanced]
    exact Or.inl hother
  · exact Or.inl hother

/-- Only indexes of tokens are recorded. -/
theorem mem_unbalanced_of_run (h : run scope machine tokens = .ok next) {other : Int}
    (hother : other ∈ next.unbalanced) :
    other ∈ machine.unbalanced ∨ other ∈ tokens.map Token.index := by
  induction tokens generalizing machine with
  | nil =>
    cases h
    exact Or.inl hother
  | cons token tokens ih =>
    obtain ⟨between, hstep, hrest⟩ := bind_eq_ok.1 h
    rcases ih hrest with hbetween | hmem
    · rcases mem_unbalanced_of_step hstep hbetween with hmachine | rfl
      · exact Or.inl hmachine
      · exact Or.inr List.mem_cons_self
    · exact Or.inr (List.mem_cons_of_mem _ hmem)

end Criteria.Machine
