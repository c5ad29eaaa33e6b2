import Criteria.Proofs.Number.Line
import Criteria.Proofs.Value.Match

/-!
# Equality is an equivalence

Two values have the same content if they are of one kind and numbers stand for one point of the line of
numbers, arrays have the same items in each place, objects the same names and the same value under each
of them; and one and the same array or object has the content that it has (`Same`). That is what
equality decides (`equal_iff_same`), so it is symmetric and transitive, and only what holds not a
number can differ from itself (`equal_equivalence`).
-/

namespace Criteria.Value

variable {a b c : Value}

/-- Two values have the same content, at any depth, or are one and the same array or object. -/
inductive Same : Value → Value → Prop
  | undefined : Same .undefined .undefined
  | null : Same .null .null
  | bool (b : Bool) : Same (.bool b) (.bool b)
  | number {m n : Number} {u : Line} (hm : m.point? = some u) (hn : n.point? = some u) :
      Same (.number m) (.number n)
  | str (text : Text) : Same (.str text) (.str text)
  | oneArray (identity : Identity) (items : List Value) :
      Same (.array identity items) (.array identity items)
  | oneObject (identity : Identity) (members : Members) :
      Same (.object identity members) (.object identity members)
  | array {i j : Identity} {items others : List Value} (hlength : items.length = others.length)
      (h : ∀ (place : Nat) (item other : Value), items[place]? = some item →
        others[place]? = some other → Same item other) :
      Same (.array i items) (.array j others)
  | object {i j : Identity} {members others : Members}
      (hnames : ∀ name, members.has name = others.has name)
      (h : ∀ name value other, members.get? name = some value → others.get? name = some other →
        Same value other) :
      Same (.object i members) (.object j others)

/-! ### What equality decides -/

/-- Items are equal in each place exactly if there are as many on both sides and those at one place are
equal. -/
theorem forall₂_equal_iff {items others : List Value} :
    List.Forall₂ (fun a b => equal a b = true) items others ↔
      items.length = others.length ∧ ∀ (place : Nat) (item other : Value),
        items[place]? = some item → others[place]? = some other → equal item other = true := by
  rw [List.forall₂_iff_get, and_congr_right_iff]
  intro hlength
  constructor
  · intro h place item other hitem hother
    obtain ⟨hplace, rfl⟩ := List.getElem?_eq_some_iff.1 hitem
    obtain ⟨hplace', rfl⟩ := List.getElem?_eq_some_iff.1 hother
    exact h place hplace hplace'
  · intro h place hplace hplace'
    exact h place _ _ (List.getElem?_eq_getElem hplace) (List.getElem?_eq_getElem hplace')

theorem equal_of_same (h : Same a b) : equal a b = true := by
  induction h with
  | undefined => rfl
  | null => rfl
  | bool b => exact beq_self_eq_true b
  | number hm hn => exact Number.equal_iff_point?.2 ⟨_, hm, hn⟩
  | str text => exact beq_self_eq_true text
  | oneArray identity items => exact equal_array_iff.2 (.inl rfl)
  | oneObject identity members => exact equal_object_iff.2 (.inl rfl)
  | array hlength _ ih => exact equal_array_iff.2 (.inr (forall₂_equal_iff.2 ⟨hlength, ih⟩))
  | object hnames _ ih => exact equal_object_iff.2 (.inr ⟨hnames, ih⟩)

theorem same_of_equal (h : equal a b = true) : Same a b := by
  induction a using Value.induction generalizing b with
  | undefined =>
    cases b with
    | undefined => exact .undefined
    | _ => cases h
  | null =>
    cases b with
    | null => exact .null
    | _ => cases h
  | bool s =>
    cases b with
    | bool t =>
      obtain rfl := beq_iff_eq.1 h
      exact .bool s
    | _ => cases h
  | number m =>
    cases b with
    | number n =>
      obtain ⟨u, hm, hn⟩ := Number.equal_iff_point?.1 h
      exact .number hm hn
    | _ => cases h
  | str text =>
    cases b with
    | str other =>
      obtain rfl := beq_iff_eq.1 h
      exact .str text
    | _ => cases h
  | array identity items ih =>
    cases b with
    | array _ others =>
      rcases equal_array_iff.1 h with hone | hitems
      · rw [← hone]
        exact .oneArray identity items
      · obtain ⟨hlength, hitems⟩ := forall₂_equal_iff.1 hitems
        exact .array hlength fun place item other hitem hother =>
          ih item (List.mem_of_getElem? hitem) (hitems place item other hitem hother)
    | _ => cases h
  | object identity members ih =>
    cases b with
    | object _ others =>
      rcases equal_object_iff.1 h with hone | ⟨hnames, hmembers⟩
      · rw [← hone]
        exact .oneObject identity members
      · exact .object hnames fun name value other hvalue hother =>
          ih (name, value) (Members.mem_of_get? hvalue) (hmembers name value other hvalue hother)
    | _ => cases h

/-- Equality decides whether values have the same content. -/
theorem equal_iff_same : equal a b = true ↔ Same a b := ⟨same_of_equal, equal_of_same⟩

/-! ### The laws of an equivalence -/

theorem Same.symm (h : Same a b) : Same b a := by
  induction h with
  | undefined => exact .undefined
  | null => exact .null
  | bool b => exact .bool b
  | number hm hn => exact .number hn hm
  | str text => exact .str text
  | oneArray identity items => exact .oneArray identity items
  | oneObject identity members => exact .oneObject identity members
  | array hlength _ ih =>
    exact .array hlength.symm fun place other item hother hitem => ih place item other hitem hother
  | object hnames _ ih =>
    exact .object (fun name => (hnames name).symm) fun name other value hother hvalue =>
      ih name value other hvalue hother

theorem Same.trans (hab : Same a b) (hbc : Same b c) : Same a c := by
  induction hab generalizing c with
  | undefined => exact hbc
  | null => exact hbc
  | bool b => exact hbc
  | str text => exact hbc
  | oneArray identity items => exact hbc
  | oneObject identity members => exact hbc
  | number hm hn =>
    cases hbc with
    | number hn' hl =>
      obtain rfl := Option.some.inj (hn.symm.trans hn')
      exact .number hm hl
  | @array _ _ items between hlength hitems ih =>
    cases hbc with
    | oneArray => exact .array hlength hitems
    | @array _ _ _ others hlength' h =>
      refine .array (hlength.trans hlength') fun place item other hitem hother => ?_
      obtain ⟨hplace, -⟩ := List.getElem?_eq_some_iff.1 hitem
      have hbetween := List.getElem?_eq_getElem (hlength ▸ hplace)
      exact ih place item _ hitem hbetween (h place _ other hbetween hother)
  | @object _ _ members between hnames hmembers ih =>
    cases hbc with
    | oneObject => exact .object hnames hmembers
    | @object _ _ _ others hnames' h =>
      refine .object (fun name => (hnames name).trans (hnames' name))
        fun name value other hvalue hother => ?_
      have hhas : Members.has between name = true :=
        (hnames name).symm.trans (Members.has_iff.2 ⟨value, hvalue⟩)
      obtain ⟨middle, hmiddle⟩ := Members.has_iff.1 hhas
      exact ih name value middle hvalue hmiddle (h name middle other hmiddle hother)

theorem IsNaNFree.same (h : IsNaNFree a) : Same a a := by
  induction h with
  | undefined => exact .undefined
  | null => exact .null
  | bool b => exact .bool b
  | number h =>
    obtain ⟨u, hu⟩ := Number.exists_point?_iff.2 h
    exact .number hu hu
  | str text => exact .str text
  | array _ ih =>
    refine .array rfl fun place item other hitem hother => ?_
    obtain rfl := Option.some.inj (hitem.symm.trans hother)
    exact ih item (List.mem_of_getElem? hitem)
  | object _ ih =>
    refine .object (fun _ => rfl) fun name value other hvalue hother => ?_
    obtain rfl := Option.some.inj (hvalue.symm.trans hother)
    exact ih name value hvalue

/-- No value is equal to two integers. -/
theorem eq_of_equal_int {m n : Int} (hm : equal (.int m) b = true) (hn : equal b (.int n) = true) :
    m = n := by
  rw [equal_iff_same] at hm hn
  cases hm.trans hn with
  | number hm hn =>
    have hpoint : Line.ofRational m = Line.ofRational n := Option.some.inj (hm.trans hn.symm)
    exact_mod_cast Line.ofRational_inj.1 hpoint

/-- **Equality is an equivalence.** It is symmetric and transitive, and every value is equal to itself
that does not hold not a number at any depth. Equal are exactly the values of the same content, where
numbers are compared as the points of the line that they stand for, and one and the same array or
object; so no value is equal to two integers. -/
theorem equal_equivalence :
    (∀ a b : Value, equal a b = true → equal b a = true) ∧
      (∀ a b c : Value, equal a b = true → equal b c = true → equal a c = true) ∧
      (∀ a : Value, IsNaNFree a → equal a a = true) ∧
      (∀ a b : Value, equal a b = true ↔ Same a b) ∧
      ∀ (m n : Int) (x : Value), equal (.int m) x = true → equal x (.int n) = true → m = n :=
  ⟨fun _ _ h => equal_of_same (same_of_equal h).symm,
    fun _ _ _ hab hbc => equal_of_same ((same_of_equal hab).trans (same_of_equal hbc)),
    fun _ h => equal_of_same h.same, fun _ _ => equal_iff_same, fun _ _ _ => eq_of_equal_int⟩

/-- Where doubles are two apart, an integer inside an object is equal to its double inside an object
with its members in another order, and the next integer is not. -/
theorem equal_equivalence_next :
    let whole : Value := .int 9007199254740992
    let double : Value := .number (.double (.ofInt 9007199254740992))
    let left : Value := .object 0 [(Text.ofString "k", whole), (Text.ofString "l", .null)]
    let right : Value := .object 1 [(Text.ofString "l", .null), (Text.ofString "k", double)]
    equal right left = true ∧ equal right right = true ∧ equal double double = true ∧
      equal double (.int 9007199254740993) = false := by
  intro whole double left right
  have hwhole : equal whole double = true := by decide +kernel
  have hleft : equal left right = true := by decide +kernel
  have hfree : IsNaNFree double := .number (by decide +kernel)
  have hright := equal_equivalence.1 left right hleft
  refine ⟨hright, equal_equivalence.2.1 right left right hright hleft,
    equal_equivalence.2.2.1 double hfree, Bool.eq_false_iff.2 fun hnext => ?_⟩
  have hsame := equal_equivalence.2.2.2.2 _ _ double hwhole hnext
  exact absurd hsame (by decide)

end Criteria.Value
