/-!
# Assignments

A list of assignments gives values to names. Of several assignments to one name the last one counts,
in the place of the first one.
-/

namespace Criteria

variable {α β : Type} [BEq α]

/-- Give a name a value: in the place of its first assignment, or else at the end. -/
def assign (name : α) (value : β) : List (α × β) → List (α × β)
  | [] => [(name, value)]
  | (n, v) :: rest => if n == name then (n, value) :: rest else (n, v) :: assign name value rest

/-- The values that assignments give, each name once. -/
def assignAll (assignments : List (α × β)) : List (α × β) :=
  assignments.foldl (fun given a => assign a.1 a.2 given) []

@[simp] theorem assign_nil (name : α) (value : β) : assign name value [] = [(name, value)] := rfl

/-- After an assignment the name has the value, and the other names have what they had. -/
theorem lookup_assign [LawfulBEq α] (name other : α) (value : β) (given : List (α × β)) :
    (assign name value given).lookup other =
      if other == name then some value else given.lookup other := by
  induction given with
  | nil => simp only [assign_nil, List.lookup_cons, List.lookup_nil]; split <;> simp_all
  | cons entry given ih =>
    obtain ⟨n, v⟩ := entry
    by_cases hn : n = name
    · subst hn
      simp only [assign, beq_self_eq_true, if_true, List.lookup_cons]
      split <;> simp_all
    · have hn' : (n == name) = false := by simpa using hn
      simp only [assign, hn', Bool.false_eq_true, if_false, List.lookup_cons, ih]
      split <;> split <;> simp_all

theorem lookup_assign_self [LawfulBEq α] {name : α} {value : β} {given : List (α × β)} :
    (assign name value given).lookup name = some value := by
  rw [lookup_assign, beq_self_eq_true, if_pos rfl]

theorem lookup_assign_of_ne [LawfulBEq α] {name other : α} {value : β} {given : List (α × β)}
    (hne : other ≠ name) : (assign name value given).lookup other = given.lookup other := by
  rw [lookup_assign, if_neg (by simpa using hne)]

/-- Of two assignments to one name the second one counts. -/
theorem assign_assign [LawfulBEq α] (name : α) (value other : β) (given : List (α × β)) :
    assign name value (assign name other given) = assign name value given := by
  induction given with
  | nil => simp [assign]
  | cons entry given ih =>
    obtain ⟨n, v⟩ := entry
    by_cases hn : (n == name) = true
    · simp only [assign, hn, if_true]
    · simp only [assign, hn, if_false, Bool.false_eq_true, ih]

theorem assign_ne_nil (name : α) (value : β) (given : List (α × β)) :
    assign name value given ≠ [] := by
  cases given with
  | nil => exact List.cons_ne_nil _ _
  | cons entry given =>
    rw [assign]
    split <;> exact List.cons_ne_nil _ _

/-- Some value is given unless there are no assignments. -/
theorem assignAll_ne_nil {assignments : List (α × β)} (h : assignments ≠ []) :
    assignAll assignments ≠ [] := by
  obtain ⟨front, last, rfl⟩ := (List.eq_nil_or_concat assignments).resolve_left h
  rw [assignAll, List.concat_eq_append, List.foldl_append]
  exact assign_ne_nil last.1 last.2 _

/-- The names after an assignment. -/
theorem mem_names_assign [LawfulBEq α] {name other : α} {value : β} {given : List (α × β)} :
    other ∈ (assign name value given).map Prod.fst ↔ other = name ∨ other ∈ given.map Prod.fst := by
  induction given with
  | nil => simp
  | cons entry given ih =>
    obtain ⟨n, v⟩ := entry
    rw [assign]
    split
    case isTrue hn =>
      obtain rfl := beq_iff_eq.1 hn
      simp
    case isFalse => rw [List.map_cons, List.mem_cons, ih, List.map_cons, List.mem_cons, or_left_comm]

/-- No name is given twice by an assignment. -/
theorem nodup_assign [LawfulBEq α] {name : α} {value : β} {given : List (α × β)}
    (h : (given.map Prod.fst).Nodup) : ((assign name value given).map Prod.fst).Nodup := by
  induction given with
  | nil => simp
  | cons entry given ih =>
    obtain ⟨n, v⟩ := entry
    obtain ⟨hn, hrest⟩ := List.nodup_cons.1 h
    rw [assign]
    split
    case isTrue => exact h
    case isFalse hne =>
      refine List.nodup_cons.2 ⟨fun hmem => ?_, ih hrest⟩
      rcases mem_names_assign.1 hmem with rfl | hmem
      · exact hne (beq_self_eq_true n)
      · exact hn hmem

/-- Of several assignments to one name one is left. -/
theorem nodup_assignAll [LawfulBEq α] (assignments : List (α × β)) :
    ((assignAll assignments).map Prod.fst).Nodup := by
  suffices h : ∀ given : List (α × β), (given.map Prod.fst).Nodup →
      ((assignments.foldl (fun given a => assign a.1 a.2 given) given).map Prod.fst).Nodup from
    h [] List.nodup_nil
  induction assignments with
  | nil => exact fun _ h => h
  | cons a assignments ih => exact fun given h => ih _ (nodup_assign h)

end Criteria
