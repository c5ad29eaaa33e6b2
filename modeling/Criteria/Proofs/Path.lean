import Criteria.Assignment
import Criteria.Proofs.Outcome
import Criteria.Value.Path

/-!
# Paths that can be followed

An index in a path is read as a numeral, and a numeral with too many digits is no fault of the
expression language. The segments of a path are parts of it, so a path that is short enough never
leads to such an index (`isReported_resolve`). `resolve_eq_error` says what keeps any path from being
followed.
-/

namespace Criteria

open Outcome

namespace Value

theorem follow_eq_error {current : Value} {segment : List Char} {fault : Fault}
    (h : current.follow segment = .error fault) : ∃ numeral, fault = .numeralTooLong numeral := by
  unfold follow at h
  split at h
  · cases h
  · split at h
    · cases h
    · split at h
      · split at h <;> cases h
        exact ⟨_, rfl⟩
      · cases h
  · split at h <;> cases h
  · cases h

theorem followAll_eq_error {current : Value} {segments : List (List Char)} {fault : Fault}
    (h : current.followAll segments = .error fault) : ∃ numeral, fault = .numeralTooLong numeral := by
  induction segments generalizing current with
  | nil => cases h
  | cons segment segments ih =>
    rcases bind_eq_error.1 h with hfollow | ⟨next, -, hrest⟩
    · exact follow_eq_error hfollow
    · exact ih hrest

/-- A path that cannot be followed has too many segments, or an index that is too long. -/
theorem resolve_eq_error {data : Value} {path : List Char} {maxDepth : Option Int} {fault : Fault}
    (h : data.resolve path maxDepth = .error fault) :
    (∃ limit actual, fault = .limitExceeded .pathDepth limit actual) ∨
      ∃ numeral, fault = .numeralTooLong numeral := by
  unfold resolve resolveSegments at h
  split at h
  · cases h
  · split at h
    · cases h
    · split at h
      · exact Or.inr (followAll_eq_error h)
      · split at h
        · cases h
          exact Or.inl ⟨_, _, rfl⟩
        · exact Or.inr (followAll_eq_error h)

section Assign

variable {name : List Char} {value : Value} {members : Members} {i j : Identity}

theorem get?_assign (name : Text) (value : Value) {other : Text} (hne : other ≠ name) :
    Members.get? (assign name value members) other = Members.get? members other :=
  lookup_assign_of_ne hne

theorem resolve_assign_self (name : List Char) (value : Value) (members : Members)
    (maxDepth : Option Int) :
    (object i (assign (Text.ofChars name) value members)).resolve name maxDepth = .ok value := by
  have hmember : (object i (assign (Text.ofChars name) value members)).member? (Text.ofChars name) =
      some value := by
    rw [member?, Members.get?, lookup_assign_self]
  rw [resolve, hmember]

/-- A path that neither is a name nor begins with it leads where it led before. -/
theorem resolve_assign {path : List Char} (hne : path ≠ name)
    (hhead : (Path.segments path).head? ≠ some name) (maxDepth : Option Int) :
    (object i (assign (Text.ofChars name) value members)).resolve path maxDepth =
      (object j members).resolve path maxDepth := by
  have hmember : (object i (assign (Text.ofChars name) value members)).member? (Text.ofChars path) =
      (object j members).member? (Text.ofChars path) := get?_assign _ _ (mt Text.ofChars_inj.1 hne)
  have hsegments : resolveSegments (object i (assign (Text.ofChars name) value members))
      (Path.segments path) maxDepth =
        resolveSegments (object j members) (Path.segments path) maxDepth := by
    cases hpath : Path.segments path with
    | nil => rfl
    | cons segment rest =>
      -- only the first segment is looked up in the object itself
      have hsegment : segment ≠ name := fun heq => hhead (by rw [hpath, heq]; rfl)
      have hfollow : (object i (assign (Text.ofChars name) value members)).followAll (segment :: rest) =
          (object j members).followAll (segment :: rest) := by
        rw [followAll, followAll, follow, follow, get?_assign _ _ (mt Text.ofChars_inj.1 hsegment)]
      unfold resolveSegments
      rw [hfollow]
  rw [resolve, resolve, hmember, hsegments]

end Assign

end Value

end Criteria
