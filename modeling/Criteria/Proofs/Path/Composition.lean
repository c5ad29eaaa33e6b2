import Criteria.Proofs.Pieces
import Criteria.Proofs.Path
import Criteria.Proofs.Value.Equality

/-!
# Paths one behind the other

A path is looked up as a whole before it is cut into segments, and so is every part of it that is
looked up by itself. Where no name in the data holds a separator this makes no difference: a name that
is the whole path is its only segment (`followAll_of_member?`). Then a path may be followed in two
parts (`resolve_append`).

* `HasPlainNames`: data in which no name holds a separator, at any depth. What a path leads to is
  such data again (`HasPlainNames.followAll`);
* `segments_append`: a path can be cut at a separator;
* `followAll_append`: following segments in two parts.
-/

namespace Criteria

open Outcome

/-! ### Cutting a path -/

namespace Path

variable {c : Char} {front back word reversed : List Char}

theorem segmentsAfter_append (hc : isSeparator c = true) :
    segmentsAfter reversed (front ++ c :: back) = segmentsAfter reversed front ++ segments back := by
  induction front generalizing reversed with
  | nil =>
    have hnil : segmentsAfter reversed [] = closeWord reversed [] := rfl
    rw [hnil, closeWord_append, List.nil_append, List.nil_append]
    exact if_pos hc
  | cons d front ih =>
    rw [List.cons_append, segmentsAfter, segmentsAfter]
    split
    · rw [ih, closeWord_append]
    · exact ih

/-- A path can be cut at a separator. -/
theorem segments_append (hc : isSeparator c = true) :
    segments (front ++ c :: back) = segments front ++ segments back := segmentsAfter_append hc

theorem segmentsAfter_of_forall (h : ∀ c ∈ word, isSeparator c = false) :
    segmentsAfter reversed word = closeWord (word.reverse ++ reversed) [] := by
  induction word generalizing reversed with
  | nil => rfl
  | cons c word ih =>
    obtain ⟨hc, hword⟩ := List.forall_mem_cons.1 h
    rw [segmentsAfter, if_neg (Bool.eq_false_iff.1 hc), ih hword, List.reverse_cons,
      List.append_assoc]
    rfl

/-- Characters without separators are one segment. -/
theorem segments_of_forall (h : ∀ c ∈ word, isSeparator c = false) (hne : word ≠ []) :
    segments word = [word] := by
  have hreverse : word.reverse.isEmpty = false := by simpa using hne
  rw [segments, segmentsAfter_of_forall h, List.append_nil, closeWord, hreverse,
    List.reverse_reverse]
  rfl

end Path

namespace Value

variable {data current next value : Value} {name : Text} {members : Members}
  {path segment front back : List Char} {segments others : List (List Char)}

/-! ### Names without separators -/

/-- A name without separators. -/
def IsPlainName (name : Text) : Prop :=
  ∀ c : Char, CodePoint.scalar c ∈ name → Path.isSeparator c = false

/-- A value in which no name holds a separator, at any depth. -/
inductive HasPlainNames : Value → Prop
  | undefined : HasPlainNames .undefined
  | null : HasPlainNames .null
  | bool (b : Bool) : HasPlainNames (.bool b)
  | number (n : Number) : HasPlainNames (.number n)
  | str (text : Text) : HasPlainNames (.str text)
  | array {identity : Identity} {items : List Value} (h : ∀ item ∈ items, HasPlainNames item) :
      HasPlainNames (.array identity items)
  | object {identity : Identity} {members : Members}
      (hname : ∀ name value, members.get? name = some value → IsPlainName name)
      (h : ∀ name value, members.get? name = some value → HasPlainNames value) :
      HasPlainNames (.object identity members)

theorem isPlainName_ofChars {cs : List Char} :
    IsPlainName (Text.ofChars cs) ↔ ∀ c ∈ cs, Path.isSeparator c = false := by
  simp [IsPlainName, Text.ofChars]

theorem HasPlainNames.singleton {identity : Identity} (hname : IsPlainName name)
    (h : value.HasPlainNames) : HasPlainNames (.object identity [(name, value)]) := by
  have hmember : ∀ other found, Members.get? [(name, value)] other = some found →
      other = name ∧ found = value := by
    intro other found hfound
    exact Prod.mk.inj (List.mem_singleton.1 (Members.mem_of_get? hfound))
  refine .object (fun other found hfound => ?_) fun other found hfound => ?_
  · obtain ⟨rfl, -⟩ := hmember other found hfound
    exact hname
  · obtain ⟨-, rfl⟩ := hmember other found hfound
    exact h

theorem HasPlainNames.getD {found : Option Value}
    (h : ∀ value, found = some value → value.HasPlainNames) :
    (found.getD .undefined).HasPlainNames := by
  cases found with
  | none => exact .undefined
  | some value => exact h value rfl

theorem HasPlainNames.follow (h : current.HasPlainNames)
    (hnext : current.follow segment = .ok next) : next.HasPlainNames := by
  unfold Value.follow at hnext
  cases h with
  | array hitems =>
    simp only at hnext
    split at hnext
    · cases hnext
      exact .number _
    split at hnext
    · split at hnext <;> cases hnext
      exact .getD fun value hvalue => hitems value (List.mem_of_getElem? hvalue)
    · cases hnext
      exact .undefined
  | object _ hvalues =>
    cases hnext
    exact .getD fun value hvalue => hvalues _ value hvalue
  | str text =>
    simp only at hnext
    split at hnext
    · cases hnext
      exact .number _
    · cases hnext
      exact .undefined
  | _ =>
    cases hnext
    exact .undefined

theorem HasPlainNames.followAll (h : current.HasPlainNames)
    (hnext : current.followAll segments = .ok next) : next.HasPlainNames := by
  induction segments generalizing current with
  | nil =>
    cases hnext
    exact h
  | cons segment segments ih =>
    obtain ⟨between, hfollow, hrest⟩ := bind_eq_ok.1 hnext
    exact ih (h.follow hfollow) hrest

/-! ### Following segments -/

/-- Following segments in two parts is following the second part where the first one leads to. -/
theorem followAll_append :
    current.followAll (segments ++ others) =
      current.followAll segments >>= fun between => between.followAll others := by
  induction segments generalizing current with
  | nil => rfl
  | cons segment segments ih =>
    rw [List.cons_append, Value.followAll, Value.followAll]
    cases current.follow segment with
    | error fault => rfl
    | ok between => exact ih

/-- Where names have no separators, a name that is a whole path is its only segment. -/
theorem followAll_of_member? (h : data.HasPlainNames) (hne : path ≠ [])
    (hmember : data.member? (Text.ofChars path) = some value) :
    Path.segments path = [path] ∧ data.followAll [path] = .ok value := by
  cases h with
  | object hnames _ =>
    have hplain := isPlainName_ofChars.1 (hnames _ value hmember)
    refine ⟨Path.segments_of_forall hplain hne, ?_⟩
    rw [Value.followAll, Value.follow]
    rw [member?] at hmember
    rw [hmember]
    rfl
  | _ => cases hmember

/-- So all paths are followed by their segments. -/
theorem resolve_eq_followAll (h : data.HasPlainNames) (hpath : Path.segments path ≠ []) :
    data.resolve path none = data.followAll (Path.segments path) := by
  unfold resolve
  split
  case h_1 value hmember =>
    have hne : path ≠ [] := by
      rintro rfl
      exact hpath rfl
    obtain ⟨hsegments, hfollow⟩ := followAll_of_member? h hne hmember
    rw [hsegments, hfollow]
  case h_2 =>
    have hempty : ¬ (Path.segments path).isEmpty = true := by simpa using hpath
    rw [resolveSegments, if_neg hempty]

/-- **Looking up a path composes.** Where no name in the data holds a separator, a path with a point
between two parts leads where the second part leads to from where the first one leads to: to the same
value, to nothing in the same cases, or to the same index that is too long. -/
theorem resolve_append (data : Value) (p q : List Char) (hdata : data.HasPlainNames)
    (hp : Path.segments p ≠ []) (hq : Path.segments q ≠ []) :
    data.resolve (p ++ '.' :: q) none =
      data.resolve p none >>= fun value => value.resolve q none := by
  have hsegments : Path.segments (p ++ '.' :: q) = Path.segments p ++ Path.segments q :=
    Path.segments_append rfl
  have hne : Path.segments (p ++ '.' :: q) ≠ [] := by
    rw [hsegments]
    exact List.append_ne_nil_of_left_ne_nil hp _
  rw [resolve_eq_followAll hdata hne, resolve_eq_followAll hdata hp, hsegments, followAll_append]
  cases hvalue : data.followAll (Path.segments p) with
  | error fault => rfl
  | ok value => exact (resolve_eq_followAll (hdata.followAll hvalue) hq).symm

/-- The size of a text in an array, with the parts of the path written in different ways. -/
theorem resolve_append_length :
    let data : Value := .object 0 [(Text.ofString "a", .array 1 [.null, .ofString "xyz"])]
    data.HasPlainNames ∧ Path.segments "['a'].1".toList ≠ [] ∧ Path.segments "[length]".toList ≠ [] ∧
      data.resolve "['a'].1.[length]".toList none = .ok (.int 3) := by
  intro data
  have ha : ∀ c ∈ ['a'], Path.isSeparator c = false := List.forall_mem_singleton.2 rfl
  have hdata : data.HasPlainNames :=
    .singleton (isPlainName_ofChars.2 ha) (.array (by simpa using ⟨.null, .str _⟩))
  have hp : Path.segments "['a'].1".toList ≠ [] := by decide
  have hq : Path.segments "[length]".toList ≠ [] := by decide
  exact ⟨hdata, hp, hq, resolve_append data "['a'].1".toList "[length]".toList hdata hp hq⟩

end Value

end Criteria
