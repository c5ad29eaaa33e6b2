import Criteria.Proofs.Assignment
import Criteria.Proofs.Json.Object

/-!
# Objects read from JSON text

Whatever a text holds, no object that is read from it has two members of one name, at any depth: of
several members of one name in the text the last one is kept.

* `Value.HasDistinctNames`: the values that are like this;
* `ReadsDistinct`: readers of such values; `readsDistinct_readValue` by induction on the depth;
* `hasDistinctNames_of_read`: so whole texts are read as such values.
-/

namespace Criteria

/-- A value in which no object has two members of one name, at any depth. -/
inductive Value.HasDistinctNames : Value → Prop
  | undefined : HasDistinctNames .undefined
  | null : HasDistinctNames .null
  | bool (b : Bool) : HasDistinctNames (.bool b)
  | number (n : Number) : HasDistinctNames (.number n)
  | str (text : Text) : HasDistinctNames (.str text)
  | array {identity : Identity} {items : List Value} (h : ∀ item ∈ items, HasDistinctNames item) :
    HasDistinctNames (.array identity items)
  | object {identity : Identity} {members : List (Text × Value)}
      (hnames : (members.map Prod.fst).Nodup) (h : ∀ member ∈ members, HasDistinctNames member.2) :
    HasDistinctNames (.object identity members)

namespace Json

open Outcome

variable {readOne : ValueReader} {cursor after : Cursor} {count depth nesting : Nat} {value : Value}
  {items : List Value} {members : Members} {t : Text}

/-- A reader of values in which no object has two members of one name. -/
def ReadsDistinct (readOne : ValueReader) : Prop :=
  ∀ cursor value after, readOne cursor = .ok (value, after) → value.HasDistinctNames

theorem hasDistinctNames_of_readWord? (h : readWord? cursor = some (value, after)) :
    value.HasDistinctNames := by
  obtain ⟨⟨word, found⟩, hfind, h⟩ := Option.map_eq_some_iff.1 h
  obtain ⟨rfl, -⟩ := Prod.mk.inj h
  have hwords : ∀ entry ∈ words, entry.2.HasDistinctNames := by
    simp [words, Value.HasDistinctNames.null, Value.HasDistinctNames.bool,
      Value.HasDistinctNames.number]
  exact hwords _ (List.mem_of_find?_eq_some hfind)

theorem readsDistinct_readScalar : ReadsDistinct readScalar := by
  intro cursor value after h
  rw [readScalar] at h
  split at h
  case isTrue =>
    obtain ⟨⟨text, ended⟩, -, h⟩ := bind_eq_ok.1 h
    cases h
    exact .str text
  case isFalse =>
    split at h
    case h_1 result _ hword =>
      cases h
      exact hasDistinctNames_of_readWord? hword
    case h_2 result _ _ =>
      obtain ⟨⟨number, ended⟩, -, h⟩ := bind_eq_ok.1 h
      cases h
      exact .number number
    case h_3 => cases h

section Collections

variable (hreads : ReadsDistinct readOne)

include hreads

theorem hasDistinctNames_of_readItems (h : readItems readOne count cursor = .ok (items, after)) :
    ∀ item ∈ items, item.HasDistinctNames := by
  induction count generalizing cursor items with
  | zero => cases h
  | succ count ih =>
    rw [readItems] at h
    obtain ⟨⟨item, place⟩, hitem, h⟩ := bind_eq_ok.1 h
    have hdistinct := hreads _ _ _ hitem
    dsimp only at h
    split at h
    case h_1 =>
      cases h
      exact List.forall_mem_singleton.2 hdistinct
    case h_2 =>
      obtain ⟨⟨rest, ended⟩, hrest, h⟩ := bind_eq_ok.1 h
      cases h
      exact List.forall_mem_cons.2 ⟨hdistinct, ih hrest⟩
    case h_3 => cases h

theorem hasDistinctNames_of_readMembers
    (h : readMembers readOne count cursor = .ok (members, after)) :
    ∀ member ∈ members, member.2.HasDistinctNames := by
  induction count generalizing cursor members with
  | zero => cases h
  | succ count ih =>
    rw [readMembers] at h
    obtain ⟨⟨name, place⟩, -, h⟩ := bind_eq_ok.1 h
    obtain ⟨⟨value, place⟩, hvalue, h⟩ := bind_eq_ok.1 h
    have hdistinct := hreads _ _ _ hvalue
    dsimp only at h
    split at h
    case h_1 =>
      cases h
      exact List.forall_mem_singleton.2 hdistinct
    case h_2 =>
      obtain ⟨⟨rest, ended⟩, hrest, h⟩ := bind_eq_ok.1 h
      cases h
      exact List.forall_mem_cons.2 ⟨hdistinct, ih hrest⟩
    case h_3 => cases h

theorem readsDistinct_readArray : ReadsDistinct (readArray readOne) := by
  intro cursor value after h
  rw [readArray] at h
  split at h
  case h_1 =>
    cases h
    exact .array (List.forall_mem_nil _)
  case h_2 =>
    obtain ⟨⟨items, ended⟩, hitems, h⟩ := bind_eq_ok.1 h
    cases h
    exact .array (hasDistinctNames_of_readItems hreads hitems)

theorem readsDistinct_readObject : ReadsDistinct (readObject readOne) := by
  intro cursor value after h
  rw [readObject] at h
  split at h
  case h_1 =>
    cases h
    exact .object List.nodup_nil (List.forall_mem_nil _)
  case h_2 =>
    obtain ⟨⟨members, ended⟩, hmembers, h⟩ := bind_eq_ok.1 h
    cases h
    exact .object (nodup_assignAll members)
      (forall_mem_assignAll (hasDistinctNames_of_readMembers hreads hmembers))

end Collections

theorem readsDistinct_readValue (depth : Nat) : ReadsDistinct (readValue depth) := by
  induction depth with
  | zero =>
    intro cursor value after h
    rw [readValue] at h
    split at h
    · cases h
    · split at h
      · cases h
      · exact readsDistinct_readScalar _ _ _ h
  | succ depth ih =>
    intro cursor value after h
    rw [readValue] at h
    split at h
    case h_1 => exact readsDistinct_readArray ih _ _ _ h
    case h_2 => exact readsDistinct_readObject ih _ _ _ h
    case h_3 => exact readsDistinct_readScalar _ _ _ h

/-- No object that is read from a text has two members of one name. -/
theorem hasDistinctNames_of_read (h : read nesting t = .ok value) : value.HasDistinctNames := by
  obtain ⟨-, after, hvalue, -⟩ := read_eq_ok_iff.1 h
  exact readsDistinct_readValue _ _ _ _ hvalue

end Json

end Criteria
