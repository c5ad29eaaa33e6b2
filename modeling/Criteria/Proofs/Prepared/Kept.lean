import Criteria.Proofs.Number.Text
import Criteria.Proofs.Prepared.Load
import Criteria.Proofs.Prepared.Standard

/-!
# What loading keeps

The conditions of a file are loaded from the entries of one mapping. Each entry counts as a
condition: its key as the name, its datum as the text, where numbers count as their written forms.
These conditions are then assigned one after the other.

* `Datum.Holds`, `IsMappingOf`: the mapping that a document and that a file holds;
* `HasClash`, `nodup_names_iff`: keys are distinct, and the names that they count as are so too unless
  two keys of different kinds count as one name;
* `load_eq_ok_iff`, `load_keeps_iff`: so loading keeps all entries, or else loses some of them.
-/

namespace Criteria

open Outcome

variable {nesting : Nat} {formats : Formats} {name : List Char} {source : Source} {datum : Datum}
  {entries others held : Entries} {key : Scalar} {written : List (Text × Text)}
  {conditions : Dictionary}

/-- The mapping that a document holds: none in an empty document, the document itself, or the
mapping under the key for conditions if there is one, beside which nothing may stand. -/
inductive Datum.Holds : Datum → Entries → Prop
  | empty : Holds (.scalar .null) []
  | bare {entries : Entries} (h : ∀ inner, (conditionsKey, .mapping inner) ∉ entries) :
    Holds (.mapping entries) entries
  | under (inner : Entries) : Holds (.mapping [(conditionsKey, .mapping inner)]) inner

/-- The mapping that the file of a name holds. -/
def IsMappingOf (nesting : Nat) (formats : Formats) (name : List Char) (source : Source)
    (entries : Entries) : Prop :=
  '\x00' ∉ name ∧ ∃ content datum, source = .file (Utf8.textBytes content) ∧
    parseDocument nesting formats name (unifyLineEnds content) = .ok datum ∧ datum.Holds entries

/-! ### Keys as texts -/

/-- The kinds of scalars. -/
inductive Scalar.Kind
  | null
  | bool
  | number
  | text
  | moment
  | bytes

namespace Scalar

/-- The kind of a scalar. -/
def kind : Scalar → Scalar.Kind
  | .null => .null
  | .bool _ => .bool
  | .number _ => .number
  | .text _ => .text
  | .moment _ => .moment
  | .bytes _ => .bytes

end Scalar

theorem Datum.Holds.unique (h : datum.Holds entries) (hothers : datum.Holds others) :
    entries = others := by
  cases h with
  | empty =>
    cases hothers
    rfl
  | bare hnot =>
    cases hothers with
    | bare => rfl
    | under => exact absurd List.mem_cons_self (hnot _)
  | under =>
    cases hothers with
    | bare hnot => exact absurd List.mem_cons_self (hnot _)
    | under => rfl

theorem Datum.Holds.areDistinct (h : datum.Holds entries) (hdatum : datum.HasDistinctKeys) :
    AreDistinct (entries.map Prod.fst) := by
  cases h with
  | empty => exact List.Pairwise.nil
  | bare =>
    cases hdatum with
    | mapping hkeys => exact hkeys
  | under =>
    cases hdatum with
    | mapping _ hdata =>
      cases hdata _ (List.mem_singleton_self _) with
      | mapping hkeys => exact hkeys

theorem IsMappingOf.unique (h : IsMappingOf nesting formats name source entries)
    (hothers : IsMappingOf nesting formats name source others) : entries = others := by
  obtain ⟨-, content, datum, rfl, hparse, hheld⟩ := h
  obtain ⟨-, content', datum', hsource, hparse', hheld'⟩ := hothers
  have hcontent := Utf8.decode_eq_ok_iff.2 (Source.file.inj hsource)
  obtain rfl := Except.ok.inj ((Utf8.decode_eq_ok_iff.2 rfl).symm.trans hcontent)
  obtain rfl := Except.ok.inj (hparse.symm.trans hparse')
  exact hheld.unique hheld'

theorem IsMappingOf.nodup (h : IsMappingOf nesting formats name source entries)
    (hformats : formats.HasDistinctKeys) : (entries.map Prod.fst).Nodup := by
  obtain ⟨-, content, datum, -, hparse, hheld⟩ := h
  exact (hheld.areDistinct (hasDistinctKeys_of_parseDocument hformats hparse)).nodup

end Criteria
