import Criteria.Text.CodePoint

/-!
# Occurrences of one text in another
-/

namespace Criteria.Text

/-- Whether a text stands somewhere inside another one; the empty text stands in every text. -/
def occursIn (part : Text) : Text → Bool
  | [] => part.isEmpty
  | p :: rest => part.isPrefixOf (p :: rest) || occursIn part rest

/-- A text occurs in another one exactly if the other one has it between two texts. -/
theorem occursIn_iff {part whole : Text} :
    occursIn part whole = true ↔ ∃ before after, whole = before ++ part ++ after := by
  induction whole with
  | nil =>
    constructor
    · intro h
      exact ⟨[], [], by rw [List.isEmpty_iff.1 h]; rfl⟩
    · rintro ⟨before, after, h⟩
      simp only [List.nil_eq, List.append_eq_nil_iff] at h
      simp [occursIn, h.1.2]
  | cons p rest ih =>
    rw [occursIn, Bool.or_eq_true, List.isPrefixOf_iff_prefix, ih]
    constructor
    · rintro (⟨after, h⟩ | ⟨before, after, rfl⟩)
      · exact ⟨[], after, by simpa using h.symm⟩
      · exact ⟨p :: before, after, rfl⟩
    · rintro ⟨before, after, h⟩
      cases before with
      | nil => exact .inl ⟨after, by simpa using h.symm⟩
      | cons q before =>
        rw [List.cons_append, List.cons_append, List.cons.injEq] at h
        exact .inr ⟨before, after, h.2⟩

end Criteria.Text
