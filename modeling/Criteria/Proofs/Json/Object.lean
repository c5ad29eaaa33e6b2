import Mathlib.Data.List.TakeWhile
import Criteria.Json.Reader
import Criteria.Proofs.Outcome

/-!
# JSON texts of objects

* `read_eq_object_iff`: an object is read from an opening brace on, since no other value is an object;
* `exists_brace_of_read_object`: spaces apart, the JSON text of an object begins with a brace;
* `read_eq_empty_iff`: the JSON texts of the object without members are the pairs of braces, with
  spaces before, between and after them.
-/

namespace Criteria.Json

open Cursor Outcome

variable {cursor next after : Cursor} {t : Text} {c : Char} {value : Value} {members : Members}
  {readOne : ValueReader} {count depth nesting : Nat} {identity : Identity}

/-! ### Places -/

theorem rest_skipSpaces : cursor.skipSpaces.rest = cursor.rest.dropWhile isSpace :=
  calc
    cursor.skipSpaces.rest
      = cursor.rest.drop (cursor.rest.takeWhile isSpace).length := rfl
    _ = (cursor.rest.takeWhile isSpace ++ cursor.rest.dropWhile isSpace).drop
          (cursor.rest.takeWhile isSpace).length := by rw [List.takeWhile_append_dropWhile]
    _ = cursor.rest.dropWhile isSpace := List.drop_left

theorem skip?_eq_some_iff :
    cursor.skip? c = some next ↔ cursor.rest.head? = some (.scalar c) ∧ next = cursor.advance 1 := by
  rw [skip?, Option.ite_none_right_eq_some, Option.some.injEq, eq_comm (a := next)]

/-- Whether a text holds nothing but spaces. -/
def IsSpaces (t : Text) : Prop := ∀ p ∈ t, isSpace p = true

/-- A character other than a space comes next, spaces apart. -/
theorem exists_skip?_skipSpaces_iff (hc : isSpace (.scalar c) = false) :
    (∃ next, cursor.skipSpaces.skip? c = some next ∧ next.rest = t) ↔
      ∃ spaces, IsSpaces spaces ∧ cursor.rest = spaces ++ .scalar c :: t := by
  constructor
  · rintro ⟨next, hskip, rfl⟩
    obtain ⟨hhead, rfl⟩ := skip?_eq_some_iff.1 hskip
    rw [rest_skipSpaces] at hhead
    obtain ⟨rest, hrest⟩ := List.head?_eq_some_iff.1 hhead
    refine ⟨cursor.rest.takeWhile isSpace, fun _ => List.mem_takeWhile_imp, ?_⟩
    rw [advance, rest_skipSpaces, hrest, List.drop_one, List.tail_cons, ← hrest,
      List.takeWhile_append_dropWhile]
  · rintro ⟨spaces, hspaces, hrest⟩
    have hdrop : cursor.skipSpaces.rest = .scalar c :: t := by
      rw [rest_skipSpaces, hrest, List.dropWhile_append_of_pos hspaces,
        List.dropWhile_cons_of_neg (Bool.eq_false_iff.1 hc)]
    exact ⟨_, skip?_eq_some_iff.2 ⟨by rw [hdrop, List.head?_cons], rfl⟩,
      by rw [advance, hdrop, List.drop_one, List.tail_cons]⟩

/-! ### Values that are no objects -/

theorem readArray_ne_object : readArray readOne cursor ≠ .ok (.object identity members, after) := by
  intro h
  rw [readArray] at h
  split at h
  · cases h
  · obtain ⟨⟨items, ended⟩, -, h⟩ := bind_eq_ok.1 h
    cases h

theorem readWord?_ne_object : readWord? cursor ≠ some (.object identity members, after) := by
  intro h
  obtain ⟨⟨word, value⟩, hfind, h⟩ := Option.map_eq_some_iff.1 h
  obtain ⟨rfl, -⟩ := Prod.mk.inj h
  have hmem := List.mem_of_find?_eq_some hfind
  simp [words] at hmem

theorem readScalar_ne_object : readScalar cursor ≠ .ok (.object identity members, after) := by
  intro h
  rw [readScalar] at h
  split at h
  · obtain ⟨⟨text, ended⟩, -, h⟩ := bind_eq_ok.1 h
    cases h
  · split at h
    case h_1 result _ hword =>
      cases h
      exact readWord?_ne_object hword
    case h_2 result _ _ =>
      obtain ⟨⟨number, ended⟩, -, h⟩ := bind_eq_ok.1 h
      cases h
    case h_3 => cases h

/-! ### Members -/

/-- Where members have been read there is one. -/
theorem readMembers_ne_nil (h : readMembers readOne count cursor = .ok (members, after)) :
    members ≠ [] := by
  cases count with
  | zero => cases h
  | succ count =>
    rw [readMembers] at h
    obtain ⟨⟨name, place⟩, -, h⟩ := bind_eq_ok.1 h
    obtain ⟨⟨value, ended⟩, -, h⟩ := bind_eq_ok.1 h
    dsimp only at h
    split at h
    case h_1 =>
      cases h
      exact List.cons_ne_nil _ _
    case h_2 =>
      obtain ⟨⟨rest, ended⟩, -, h⟩ := bind_eq_ok.1 h
      cases h
      exact List.cons_ne_nil _ _
    case h_3 => cases h

/-- Between braces there are no members exactly if the closing one comes next. -/
theorem readObject_eq_empty_iff :
    (∃ identity, readObject readOne cursor = .ok (.object identity [], after)) ↔
      cursor.skip? '\x7d' = some after := by
  simp only [readObject]
  cases cursor.skip? '\x7d' with
  | some ended => simp
  | none =>
    simp only [reduceCtorEq, iff_false]
    rintro ⟨identity, h⟩
    obtain ⟨⟨members, ended⟩, hmembers, h⟩ := bind_eq_ok.1 h
    obtain ⟨hobject, -⟩ := Prod.mk.inj (Except.ok.inj h)
    exact assignAll_ne_nil (readMembers_ne_nil hmembers) (Value.object.inj hobject).2

/-- An object is read from its opening brace on. -/
theorem readValue_eq_object_iff :
    readValue (depth + 1) cursor = .ok (.object identity members, after) ↔
      ∃ next, cursor.skip? '\x7b' = some next ∧
        readObject (readValue depth) next.skipSpaces = .ok (.object identity members, after) := by
  rw [readValue]
  split
  -- The opening mark is a bracket, so it is no brace.
  case h_1 next harray =>
    obtain ⟨hbracket, -⟩ := skip?_eq_some_iff.1 harray
    refine iff_of_false readArray_ne_object ?_
    rintro ⟨_, hobject, -⟩
    obtain ⟨hbrace, -⟩ := skip?_eq_some_iff.1 hobject
    exact absurd (hbracket.symm.trans hbrace) (by decide)
  case h_2 next _ hobject => simp [hobject]
  case h_3 _ hobject => simp [hobject, readScalar_ne_object]

/-! ### Whole texts -/

theorem isEmpty_skipSpaces_iff : cursor.skipSpaces.rest.isEmpty = true ↔ IsSpaces cursor.rest := by
  rw [rest_skipSpaces, List.isEmpty_iff, List.dropWhile_eq_nil_iff, IsSpaces]

/-- A text is read as the value at its beginning, if nothing but spaces follows. -/
theorem read_eq_ok_iff :
    read nesting t = .ok value ↔ t.head? ≠ some byteOrderMark ∧ ∃ after,
      readValue (nesting + 1) (Cursor.mk 0 t).skipSpaces = .ok (value, after) ∧
        IsSpaces after.rest := by
  rw [read]
  split
  case isTrue hmark => exact iff_of_false (fun h => nomatch h) fun h => h.1 hmark
  case isFalse hmark =>
    rw [bind_eq_ok]
    constructor
    · rintro ⟨⟨found, after⟩, hfound, h⟩
      dsimp only at h
      split at h
      case isTrue hend =>
        cases h
        exact ⟨hmark, after, hfound, isEmpty_skipSpaces_iff.1 hend⟩
      case isFalse => cases h
    · rintro ⟨-, after, hfound, hend⟩
      refine ⟨(value, after), hfound, ?_⟩
      dsimp only
      rw [if_pos (isEmpty_skipSpaces_iff.2 hend)]
      rfl

/-- An object is read from an opening brace on, and there is no mark in front of the brace. -/
theorem read_eq_object_iff :
    read nesting t = .ok (.object identity members) ↔
      ∃ next after : Cursor, (Cursor.mk 0 t).skipSpaces.skip? '\x7b' = some next ∧
        readObject (readValue nesting) next.skipSpaces = .ok (.object identity members, after) ∧
        IsSpaces after.rest := by
  rw [read_eq_ok_iff]
  constructor
  · rintro ⟨-, after, hvalue, hafter⟩
    obtain ⟨next, hopening, hmembers⟩ := readValue_eq_object_iff.1 hvalue
    exact ⟨next, after, hopening, hmembers, hafter⟩
  · rintro ⟨next, after, hopening, hmembers, hafter⟩
    refine ⟨fun hmark => ?_, after, readValue_eq_object_iff.2 ⟨next, hopening, hmembers⟩, hafter⟩
    -- A mark is no space, so the brace would have to stand in its place.
    obtain ⟨hbrace, -⟩ := skip?_eq_some_iff.1 hopening
    obtain ⟨rest, rfl⟩ := List.head?_eq_some_iff.1 hmark
    rw [rest_skipSpaces, List.dropWhile_cons_of_neg (by decide), List.head?_cons] at hbrace
    exact absurd (Option.some.inj hbrace) (by decide)

/-- The JSON text of an object begins with a brace. -/
theorem exists_brace_of_read_object (h : read nesting t = .ok (.object identity members)) :
    ∃ spaces rest, IsSpaces spaces ∧ t = spaces ++ .scalar '\x7b' :: rest := by
  obtain ⟨next, after, hopening, -⟩ := read_eq_object_iff.1 h
  obtain ⟨spaces, hspaces, ht⟩ := (exists_skip?_skipSpaces_iff rfl).1 ⟨next, hopening, rfl⟩
  exact ⟨spaces, _, hspaces, ht⟩

/-- The JSON texts of the object without members are the pairs of braces, spaces apart. -/
theorem read_eq_empty_iff :
    (∃ identity, read nesting t = .ok (.object identity [])) ↔ ∃ before inside after,
      IsSpaces before ∧ IsSpaces inside ∧ IsSpaces after ∧
      t = before ++ .scalar '\x7b' :: (inside ++ .scalar '\x7d' :: after) := by
  simp only [read_eq_object_iff]
  constructor
  · rintro ⟨identity, next, ended, hopening, hobject, hafter⟩
    obtain ⟨before, hbefore, ht⟩ := (exists_skip?_skipSpaces_iff rfl).1 ⟨next, hopening, rfl⟩
    obtain ⟨inside, hinside, hrest⟩ := (exists_skip?_skipSpaces_iff rfl).1
      ⟨ended, readObject_eq_empty_iff.1 ⟨identity, hobject⟩, rfl⟩
    exact ⟨before, inside, ended.rest, hbefore, hinside, hafter, by rw [← hrest]; exact ht⟩
  · rintro ⟨before, inside, after, hbefore, hinside, hafter, ht⟩
    obtain ⟨next, hopening, hnext⟩ :=
      (@exists_skip?_skipSpaces_iff (Cursor.mk 0 t) _ _ rfl).2 ⟨before, hbefore, ht⟩
    obtain ⟨ended, hclosing, hended⟩ :=
      (@exists_skip?_skipSpaces_iff next _ _ rfl).2 ⟨inside, hinside, hnext⟩
    obtain ⟨identity, hobject⟩ := readObject_eq_empty_iff.2 hclosing
    exact ⟨identity, next, ended, hopening, hobject, hended ▸ hafter⟩

end Criteria.Json
