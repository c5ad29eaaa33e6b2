import Mathlib.Logic.Relator
import Criteria.Proofs.Machine.Correspondence
import Criteria.Proofs.Value.Equivalence

/-!
# Values that are alike

Two values are alike if they hold the same, at any depth. Their identities may differ, but for arrays
and objects that hold not a number: these are equal to nothing but themselves, so each of them needs a
counterpart of its own.

* `Alike`: values that are alike, where a relation says which arrays and objects are counterparts;
* `equal_of_alike`, `isMatch_of_alike`, `elements?_of_alike` and so on: what is asked of a value is
  answered in the same way for one that is alike;
* `isRespected_alike`: so operators give outcomes that are alike, if no two arrays or objects have one
  counterpart.
-/

namespace Criteria.Value

open Outcome

variable {one : Value → Value → Prop} {a b s t value : Value} {members : Members} {seen : List Text}
  {elements others : List Value} {nesting : Nat}

/-- Two values hold the same, at any depth, and arrays and objects that hold not a number are
counterparts. -/
inductive Alike (one : Value → Value → Prop) : Value → Value → Prop
  | undefined : Alike one .undefined .undefined
  | null : Alike one .null .null
  | bool (b : Bool) : Alike one (.bool b) (.bool b)
  | number (n : Number) : Alike one (.number n) (.number n)
  | str (text : Text) : Alike one (.str text) (.str text)
  | array {i j : Identity} {items others : List Value}
      (hone : IsNaNFree (.array i items) ∨ one (.array i items) (.array j others))
      (hlength : items.length = others.length)
      (h : ∀ (place : Nat) (item other : Value), items[place]? = some item →
        others[place]? = some other → Alike one item other) :
      Alike one (.array i items) (.array j others)
  | object {i j : Identity} {members others : Members}
      (hone : IsNaNFree (.object i members) ∨ one (.object i members) (.object j others))
      (hnames : ∀ name, members.has name = others.has name)
      (h : ∀ name value other, members.get? name = some value → others.get? name = some other →
        Alike one value other) :
      Alike one (.object i members) (.object j others)

/-! ### What values that are alike have in common -/

namespace Alike

theorem kind_eq (h : Alike one a b) : a.kind = b.kind := by
  cases h <;> rfl

theorem isTruthy_eq (h : Alike one a b) : a.isTruthy = b.isTruthy := by
  cases h <;> rfl

/-- Whatever holds no other value is alike to itself. -/
theorem of_kind (h : a.kind ≠ .array ∧ a.kind ≠ .object) : Alike one a a := by
  cases a with
  | undefined => exact .undefined
  | null => exact .null
  | bool b => exact .bool b
  | number n => exact .number n
  | str text => exact .str text
  | array => exact absurd rfl h.1
  | object => exact absurd rfl h.2

/-- Every value is alike to itself, if every array and object is a counterpart of itself. -/
theorem refl (hone : ∀ value, one value value) (a : Value) : Alike one a a := by
  induction a using Value.induction with
  | undefined => exact .undefined
  | null => exact .null
  | bool b => exact .bool b
  | number n => exact .number n
  | str text => exact .str text
  | array identity items ih =>
    refine .array (.inr (hone _)) rfl fun place item other hitem hother => ?_
    obtain rfl := Option.some.inj (hitem.symm.trans hother)
    exact ih item (List.mem_of_getElem? hitem)
  | object identity members ih =>
    refine .object (.inr (hone _)) (fun _ => rfl) fun name value other hvalue hother => ?_
    obtain rfl := Option.some.inj (hvalue.symm.trans hother)
    exact ih (name, value) (Members.mem_of_get? hvalue)

/-- The value under a name has one that is alike under that name. -/
theorem exists_get? {i j : Identity} {others : Members} {name : Text}
    (h : Alike one (.object i members) (.object j others)) (hvalue : members.get? name = some value) :
    ∃ other, others.get? name = some other ∧ Alike one value other := by
  cases h with
  | object _ hnames h =>
    obtain ⟨other, hother⟩ :=
      Members.has_iff.1 ((hnames name).symm.trans (Members.has_iff.2 ⟨_, hvalue⟩))
    exact ⟨other, hother, h name value other hvalue hother⟩

/-- An item has one that is alike in the same place. -/
theorem exists_getElem? {i j : Identity} {items : List Value} {place : Nat}
    (h : Alike one (.array i items) (.array j others)) (hitem : items[place]? = some value) :
    ∃ other, others[place]? = some other ∧ Alike one value other := by
  cases h with
  | array _ hlength h =>
    obtain ⟨hplace, -⟩ := List.getElem?_eq_some_iff.1 hitem
    have hother := List.getElem?_eq_getElem (hlength ▸ hplace)
    exact ⟨_, hother, h place value _ hitem hother⟩

theorem singleton {i j : Identity} {item other : Value}
    (hone : IsNaNFree (.array i [item]) ∨ one (.array i [item]) (.array j [other]))
    (h : Alike one item other) : Alike one (.array i [item]) (.array j [other]) := by
  refine .array hone rfl fun place found twin hfound htwin => ?_
  obtain rfl := List.mem_singleton.1 (List.mem_of_getElem? hfound)
  obtain rfl := List.mem_singleton.1 (List.mem_of_getElem? htwin)
  exact h

theorem isNaNFree (h : Alike one a b) (hfree : IsNaNFree a) : IsNaNFree b := by
  induction h with
  | undefined => exact hfree
  | null => exact hfree
  | bool b => exact hfree
  | number n => exact hfree
  | str text => exact hfree
  | @array i j items others hone hlength h ih =>
    cases hfree with
    | array hitems =>
      refine .array fun other hother => ?_
      obtain ⟨place, hplace⟩ := List.mem_iff_getElem?.1 hother
      obtain ⟨hlt, -⟩ := List.getElem?_eq_some_iff.1 hplace
      have hitem := List.getElem?_eq_getElem (hlength ▸ hlt)
      exact ih place _ other hitem hplace (hitems _ (List.mem_of_getElem? hitem))
  | @object i j members others hone hnames h ih =>
    cases hfree with
    | object hmembers =>
      refine .object fun name other hother => ?_
      obtain ⟨value, hvalue⟩ :=
        Members.has_iff.1 ((hnames name).trans (Members.has_iff.2 ⟨other, hother⟩))
      exact ih name value other hvalue hother (hmembers name value hvalue)

theorem symm (h : Alike one a b) : Alike (flip one) b a := by
  have hfree : ∀ {a b : Value}, IsNaNFree a ∨ one a b → Alike one a b →
      IsNaNFree b ∨ flip one b a := fun hone h => hone.imp_left h.isNaNFree
  induction h with
  | undefined => exact .undefined
  | null => exact .null
  | bool b => exact .bool b
  | number n => exact .number n
  | str text => exact .str text
  | array hone hlength h ih =>
    exact .array (hfree hone (.array hone hlength h)) hlength.symm
      fun place other item hother hitem => ih place item other hitem hother
  | object hone hnames h ih =>
    exact .object (hfree hone (.object hone hnames h)) (fun name => (hnames name).symm)
      fun name other value hother hvalue => ih name value other hvalue hother

end Alike

/-! ### Equality -/

section Equality

variable {i i' : Identity} {items items' others' : List Value} {members' found found' : Members}

/-- Arrays that are equal have equal items, even if they are one and the same, unless they hold not a
number. -/
theorem forall₂_of_equal (hfree : IsNaNFree (.array i items))
    (h : equal (.array i items) (.array i' items') = true) :
    List.Forall₂ (fun a b => equal a b = true) items items' := by
  rcases equal_array_iff.1 h with hsame | hitems
  · cases hsame
    cases hfree with
    | array hfree =>
      exact List.forall₂_same.2 fun item hitem => equal_of_same (hfree item hitem).same
  · exact hitems

/-- Objects that are equal have equal values under each name, even if they are one and the same, unless
they hold not a number. -/
theorem get?_of_equal (hfree : IsNaNFree (.object i members))
    (h : equal (.object i members) (.object i' members') = true) :
    (∀ name, members.has name = members'.has name) ∧
      ∀ name value value', members.get? name = some value → members'.get? name = some value' →
        equal value value' = true := by
  rcases equal_object_iff.1 h with hsame | hmembers
  · cases hsame
    refine ⟨fun _ => rfl, fun name value value' hvalue hvalue' => ?_⟩
    obtain rfl := Option.some.inj (hvalue.symm.trans hvalue')
    cases hfree with
    | object hfree => exact equal_of_same (hfree name value hvalue).same
  · exact hmembers

/-- Where equality carries over to what stands in the same places, arrays with equal items lead to
arrays with equal items. -/
theorem forall₂_equal_of_places (hlength : items.length = others.length)
    (hlength' : items'.length = others'.length)
    (hcarries : ∀ (place : Nat) (item other item' other' : Value), items[place]? = some item →
      others[place]? = some other → items'[place]? = some item' → others'[place]? = some other' →
      equal item item' = true → equal other other' = true)
    (h : List.Forall₂ (fun a b => equal a b = true) items items') :
    List.Forall₂ (fun a b => equal a b = true) others others' := by
  obtain ⟨hsame, hequal⟩ := forall₂_equal_iff.1 h
  refine forall₂_equal_iff.2
    ⟨hlength.symm.trans (hsame.trans hlength'), fun place other other' hother hother' => ?_⟩
  obtain ⟨hlt, -⟩ := List.getElem?_eq_some_iff.1 hother
  have hitem := List.getElem?_eq_getElem (hlength.symm ▸ hlt)
  have hitem' := List.getElem?_eq_getElem (hsame ▸ hlength.symm ▸ hlt)
  exact hcarries place _ other _ other' hitem hother hitem' hother' (hequal place _ _ hitem hitem')

/-- Where equality carries over to what stands under the same names, objects with equal members lead to
objects with equal members. -/
theorem get?_equal_of_names (hnames : ∀ name, members.has name = found.has name)
    (hnames' : ∀ name, members'.has name = found'.has name)
    (hcarries : ∀ name value other value' other', members.get? name = some value →
      found.get? name = some other → members'.get? name = some value' →
      found'.get? name = some other' → equal value value' = true → equal other other' = true)
    (h : (∀ name, members.has name = members'.has name) ∧
      ∀ name value value', members.get? name = some value → members'.get? name = some value' →
        equal value value' = true) :
    (∀ name, found.has name = found'.has name) ∧
      ∀ name other other', found.get? name = some other → found'.get? name = some other' →
        equal other other' = true := by
  refine ⟨fun name => ?_, fun name other other' hother hother' => ?_⟩
  · rw [← hnames, h.1, hnames']
  · obtain ⟨value, hvalue⟩ :=
      Members.has_iff.1 ((hnames name).trans (Members.has_iff.2 ⟨other, hother⟩))
    obtain ⟨value', hvalue'⟩ :=
      Members.has_iff.1 ((hnames' name).trans (Members.has_iff.2 ⟨other', hother'⟩))
    exact hcarries name value other value' other' hvalue hother hvalue' hother'
      (h.2 name value value' hvalue hvalue')

/-- What holds not a number has at most one counterpart. -/
theorem counterpart_eq (hone : Relator.RightUnique one) (hfirst : IsNaNFree a ∨ one a b)
    (hsecond : IsNaNFree a ∨ one a t) : IsNaNFree a ∨ b = t := by
  rcases hfirst with hfree | hfirst
  · exact .inl hfree
  · exact hsecond.imp_right fun hsecond => hone hfirst hsecond

/-- What is equal is equal in values that are alike, if no array or object has two counterparts. -/
theorem equal_of_alike (hone : Relator.RightUnique one) (h : Alike one a b) (h' : Alike one s t)
    (hequal : equal a s = true) : equal b t = true := by
  induction h generalizing s t with
  | undefined => cases h' <;> exact hequal
  | null => cases h' <;> exact hequal
  | bool b => cases h' <;> exact hequal
  | number n => cases h' <;> exact hequal
  | str text => cases h' <;> exact hequal
  | @array i j items others hfirst hlength _ ih =>
    cases h' with
    | @array i' j' items' others' hsecond hlength' hplaces =>
      have hitems := forall₂_equal_of_places hlength hlength'
        fun place item other item' other' hitem hother hitem' hother' =>
          ih place item other hitem hother (hplaces place item' other' hitem' hother')
      rcases equal_array_iff.1 hequal with hsame | hequal'
      · -- one and the same, so their counterparts are so too
        rw [← hsame] at hsecond
        rcases counterpart_eq hone hfirst hsecond with hfree | hcounterpart
        · exact equal_array_iff.2 (.inr (hitems (forall₂_of_equal hfree hequal)))
        · exact equal_array_iff.2 (.inl hcounterpart)
      · exact equal_array_iff.2 (.inr (hitems hequal'))
    | _ => cases hequal
  | @object i j members found hfirst hnames _ ih =>
    cases h' with
    | @object i' j' members' found' hsecond hnames' hvalues =>
      have hmembers := get?_equal_of_names hnames hnames'
        fun name value other value' other' hvalue hother hvalue' hother' =>
          ih name value other hvalue hother (hvalues name value' other' hvalue' hother')
      rcases equal_object_iff.1 hequal with hsame | hequal'
      · rw [← hsame] at hsecond
        rcases counterpart_eq hone hfirst hsecond with hfree | hcounterpart
        · exact equal_object_iff.2 (.inr (hmembers (get?_of_equal hfree hequal)))
        · exact equal_object_iff.2 (.inl hcounterpart)
      · exact equal_object_iff.2 (.inr (hmembers hequal'))
    | _ => cases hequal

/-- What values are equal does not depend on which of those that are alike are taken. -/
theorem equal_eq_of_alike (hone : Relator.BiUnique one) (h : Alike one a b) (h' : Alike one s t) :
    equal a s = equal b t :=
  Bool.eq_iff_iff.2 ⟨equal_of_alike hone.2 h h', equal_of_alike hone.1.flip h.symm h'.symm⟩

end Equality

/-! ### Patterns -/

/-- A pattern is met by all values that are alike. -/
theorem isMatch_of_alike {pattern : Value} (h : Alike one a b) (hmatch : isMatch a pattern = true) :
    isMatch b pattern = true := by
  induction pattern using Value.induction generalizing a b with
  | undefined =>
    obtain rfl := isMatch_undefined_iff.1 hmatch
    cases h
    exact hmatch
  | null =>
    obtain rfl := isMatch_null_iff.1 hmatch
    cases h
    exact hmatch
  | bool =>
    obtain rfl := isMatch_bool_iff.1 hmatch
    cases h
    exact hmatch
  | str =>
    obtain rfl := isMatch_str_iff.1 hmatch
    cases h
    exact hmatch
  | number =>
    obtain ⟨m, rfl, -⟩ := isMatch_number_iff.1 hmatch
    cases h
    exact hmatch
  | array _ patternItems ih =>
    obtain ⟨_, items, rfl, hitems⟩ := isMatch_array_iff.1 hmatch
    cases h with
    | @array _ _ _ others hone hlength hplaces =>
      refine isMatch_array_iff.2 ⟨_, others, rfl, fun asked hasked => ?_⟩
      obtain ⟨item, hitem, hmet⟩ := hitems asked hasked
      obtain ⟨place, hplace⟩ := List.mem_iff_getElem?.1 hitem
      obtain ⟨other, hother, halike⟩ := (Alike.array hone hlength hplaces).exists_getElem? hplace
      exact ⟨other, List.mem_of_getElem? hother, ih asked hasked halike hmet⟩
  | object _ patterns ih =>
    obtain ⟨_, members, rfl, hmembers⟩ := isMatch_object_iff.1 hmatch
    cases h with
    | @object _ _ _ others hone hnames hvalues =>
      refine isMatch_object_iff.2 ⟨_, others, rfl, fun name asked hasked => ?_⟩
      obtain ⟨found, hfound, hmet⟩ := hmembers name asked hasked
      obtain ⟨other, hother, halike⟩ := (Alike.object hone hnames hvalues).exists_get? hfound
      exact ⟨other, hother, ih _ (Members.mem_of_get? hasked) halike hmet⟩

/-! ### Collections -/

/-- What holds of all values of an object holds of the value under each name. -/
theorem forall_mem_values_iff {P : Value → Prop} :
    (∀ value ∈ Members.values seen members, P value) ↔
      ∀ name value, name ∉ seen → members.get? name = some value → P value := by
  induction members generalizing seen with
  | nil => simp [Members.values, Members.get?]
  | cons member members ih =>
    obtain ⟨first, firstValue⟩ := member
    rw [@Members.forall_get?_cons members seen fun _ value => P value, Members.values]
    by_cases hfirst : first ∈ seen
    · have hseen : ∀ name, name ∉ first :: seen ↔ name ∉ seen := fun name => by
        rw [List.mem_cons, not_or, and_iff_right_iff_imp]
        rintro hname rfl
        exact hname hfirst
      rw [if_pos (List.contains_iff_mem.2 hfirst), ih, and_iff_right (.inl hfirst)]
      simp only [hseen]
    · rw [if_neg (fun hmem => hfirst (List.contains_iff_mem.1 hmem)), List.forall_mem_cons, ih,
        or_iff_right hfirst]

/-- Each element of a collection has one that is alike. -/
theorem elements?_of_alike (h : Alike one a b) (helements : a.elements? = some elements) :
    ∃ others, b.elements? = some others ∧ ∀ element ∈ elements, ∃ other ∈ others,
      Alike one element other := by
  cases h with
  | undefined | null =>
    cases helements
    exact ⟨[], rfl, nofun⟩
  | str text =>
    cases helements
    refine ⟨_, rfl, fun element helement => ⟨element, helement, ?_⟩⟩
    obtain ⟨p, -, rfl⟩ := List.mem_map.1 helement
    exact .str [p]
  | bool | number => cases helements
  | array hone hlength h =>
    cases helements
    refine ⟨_, rfl, fun element helement => ?_⟩
    obtain ⟨place, hplace⟩ := List.mem_iff_getElem?.1 helement
    obtain ⟨other, hother, halike⟩ := (Alike.array hone hlength h).exists_getElem? hplace
    exact ⟨other, List.mem_of_getElem? hother, halike⟩
  | object hone hnames h =>
    cases helements
    refine ⟨_, rfl, forall_mem_values_iff.2 fun name value hname hvalue => ?_⟩
    obtain ⟨other, hother, halike⟩ := (Alike.object hone hnames h).exists_get? hvalue
    exact ⟨other, forall_mem_values_iff.1 (fun _ hmem => hmem) name other hname hother, halike⟩

theorem elements?_eq_none (h : Alike one a b) : a.elements? = none ↔ b.elements? = none := by
  cases h <;> simp [elements?]

theorem pattern?_eq_of_alike (h : Alike one a b) : a.pattern? nesting = b.pattern? nesting := by
  cases h <;> rfl

/-- A collection holds a sample if one that is alike holds one that is alike. -/
theorem holds_of_alike (hone : Relator.RightUnique one) (h : Alike one a b) (h' : Alike one s t)
    (helements : ∀ element ∈ elements, ∃ other ∈ others, Alike one element other)
    (hholds : a.holds nesting elements s = true) : b.holds nesting others t = true := by
  have hany {P Q : Value → Bool} (hPQ : ∀ x y, Alike one x y → P x = true → Q y = true)
      (hP : elements.any P = true) : others.any Q = true := by
    obtain ⟨element, helement, helementP⟩ := List.any_eq_true.1 hP
    obtain ⟨other, hother, halike⟩ := helements element helement
    exact List.any_eq_true.2 ⟨other, hother, hPQ element other halike helementP⟩
  unfold holds at hholds ⊢
  rw [← pattern?_eq_of_alike h']
  split at hholds
  case h_1 =>
    obtain ⟨element, helement⟩ : ∃ element, element ∈ elements :=
      List.exists_mem_of_ne_nil elements (by simpa using hholds)
    obtain ⟨other, hother, -⟩ := helements element helement
    simpa using List.ne_nil_of_mem hother
  case h_2 => exact hany (fun _ _ => isMatch_of_alike) hholds
  case h_3 =>
    have hequal := hany fun x y halike => equal_of_alike hone halike h'
    cases h with
    | str => cases h' <;> exact hholds
    | _ => exact hequal hholds

/-- Sizes are alike. -/
theorem size?_of_alike (h : Alike one a b) (hsize : a.size? = some value) :
    ∃ other, b.size? = some other ∧ Alike one value other := by
  cases h with
  | undefined | null | str =>
    cases hsize
    exact ⟨_, rfl, .number _⟩
  | bool | number => cases hsize
  | array hone hlength h =>
    cases hsize
    exact ⟨_, rfl, hlength ▸ .number _⟩
  | object hone hnames h => exact (Alike.object hone hnames h).exists_get? hsize

theorem size?_eq_number_iff (h : Alike one a b) {n : Number} :
    a.size? = some (.number n) ↔ b.size? = some (.number n) := by
  constructor
  · intro hsize
    obtain ⟨other, hother, halike⟩ := size?_of_alike h hsize
    cases halike
    exact hother
  · intro hsize
    obtain ⟨other, hother, halike⟩ := size?_of_alike h.symm hsize
    cases halike
    exact hother

theorem hasLength_eq_of_alike (h : Alike one a b) (h' : Alike one s t) :
    a.hasLength s = b.hasLength t := by
  have hexpected : ∀ n, s = .number n ↔ t = .number n := by
    cases h' <;> simp
  unfold hasLength
  split
  case h_1 m n hsize => rw [(size?_eq_number_iff h).1 hsize, (hexpected n).1 rfl]
  case h_2 hnot =>
    split
    case h_1 m n hsize =>
      exact (hnot m n ((size?_eq_number_iff h).2 hsize) ((hexpected n).2 rfl)).elim
    case h_2 => rfl

theorem exists_hasLength (a s : Value) : ∃ answer, a.hasLength s = .bool answer := by
  unfold hasLength
  split <;> exact ⟨_, rfl⟩

/-! ### Operators -/

/-- A value without what it holds. -/
def outline : Value → Value
  | .array .. => .array 0 []
  | .object .. => .object 0 []
  | value => value

theorem Alike.outline_eq (h : Alike one a b) : a.outline = b.outline := by
  cases h <;> rfl

/-- An operation that does not look into arrays and objects, and gives none, gives outcomes that are
alike. -/
theorem related_of_outline {apply : Value → Value → Except Cause Value}
    (happly : ∀ a s, apply a s = apply a.outline s.outline)
    (hkind : ∀ a s value, apply a s = .ok value → value.kind ≠ .array ∧ value.kind ≠ .object)
    (h : Alike one a b) (h' : Alike one s t) : Related (Alike one) (apply a s) (apply b t) := by
  rw [happly a s, happly b t, h.outline_eq, h'.outline_eq]
  exact .refl fun value hvalue => .of_kind (hkind _ _ value hvalue)

section Arithmetic

variable {verb symbol : String} {combine : Number → Number → Option Number}
  {ofNumbers : Number → Number → Bool} {ofTexts : Text → Text → Bool}

theorem arithmetic_outline :
    arithmetic verb combine a s = arithmetic verb combine a.outline s.outline := by
  cases a <;> cases s <;> rfl

theorem kind_of_arithmetic (h : arithmetic verb combine a s = .ok value) : value.kind = .number := by
  unfold arithmetic at h
  split at h
  · split at h <;> cases h
    rfl
  · cases h

theorem add_outline : a.add s = a.outline.add s.outline := by
  cases a <;> cases s <;> rfl

theorem kind_of_add (h : a.add s = .ok value) : value.kind ≠ .array ∧ value.kind ≠ .object := by
  unfold add at h
  split at h
  · cases h
    exact ⟨nofun, nofun⟩
  · rw [kind_of_arithmetic h]
    exact ⟨nofun, nofun⟩

theorem ordering_outline :
    ordering symbol ofNumbers ofTexts a s =
      ordering symbol ofNumbers ofTexts a.outline s.outline := by
  cases a <;> cases s <;> rfl

theorem kind_of_ordering (h : ordering symbol ofNumbers ofTexts a s = .ok value) :
    value.kind = .boolean := by
  unfold ordering at h
  split at h
  · cases h
    rfl
  · split at h <;> cases h <;> rfl

end Arithmetic

theorem related_contains (hone : Relator.BiUnique one) (h : Alike one a b) (h' : Alike one s t) :
    Related (Alike one) (a.contains nesting s) (b.contains nesting t) := by
  unfold contains
  cases helements : a.elements? with
  | none =>
    rw [(elements?_eq_none h).1 helements, h.kind_eq]
    exact .error _
  | some elements =>
    obtain ⟨others, hothers, hforth⟩ := elements?_of_alike h helements
    obtain ⟨_, helements', hback⟩ := elements?_of_alike h.symm hothers
    obtain rfl := Option.some.inj (helements.symm.trans helements')
    have hholds : a.holds nesting elements s = b.holds nesting others t := Bool.eq_iff_iff.2
      ⟨holds_of_alike hone.2 h h' hforth, holds_of_alike hone.1.flip h.symm h'.symm hback⟩
    rw [hothers]
    dsimp only
    rw [hholds]
    exact .ok (.bool _)

/-- An operator between two operands gives outcomes that are alike for operands that are alike. -/
theorem related_binary (hone : Relator.BiUnique one) (operator : BinaryOperator)
    (h : Alike one a b) (h' : Alike one s t) :
    Related (Alike one) (operator.apply nesting a s) (operator.apply nesting b t) := by
  have harithmetic (verb : String) (combine : Number → Number → Option Number) :
      Related (Alike one) (arithmetic verb combine a s) (arithmetic verb combine b t) :=
    related_of_outline (fun _ _ => arithmetic_outline)
      (fun _ _ value hvalue => by simp [kind_of_arithmetic hvalue]) h h'
  have hordering (symbol : String) (ofNumbers : Number → Number → Bool)
      (ofTexts : Text → Text → Bool) : Related (Alike one)
        (ordering symbol ofNumbers ofTexts a s) (ordering symbol ofNumbers ofTexts b t) :=
    related_of_outline (fun _ _ => ordering_outline)
      (fun _ _ value hvalue => by simp [kind_of_ordering hvalue]) h h'
  cases operator with
  | add =>
    exact related_of_outline (fun _ _ => add_outline) (fun _ _ _ => kind_of_add) h h'
  | subtract => exact harithmetic _ _
  | multiply => exact harithmetic _ _
  | divide => exact harithmetic "divide" fun m n => some (.double (m.div n))
  | greater => exact hordering _ _ _
  | less => exact hordering _ _ _
  | contains => exact related_contains hone h h'
  | equal =>
    rw [BinaryOperator.apply, BinaryOperator.apply, equal_eq_of_alike hone h h']
    exact .ok (.bool _)
  | notEqual =>
    rw [BinaryOperator.apply, BinaryOperator.apply, equal_eq_of_alike hone h h']
    exact .ok (.bool _)
  | hasLength =>
    obtain ⟨answer, hanswer⟩ := exists_hasLength b t
    rw [BinaryOperator.apply, BinaryOperator.apply, hasLength_eq_of_alike h h', hanswer]
    exact .ok (.bool answer)
  | and =>
    rw [BinaryOperator.apply, BinaryOperator.apply, Value.and, Value.and, h.isTruthy_eq]
    split
    case isTrue => exact .ok h'
    case isFalse => exact .ok h
  | or =>
    rw [BinaryOperator.apply, BinaryOperator.apply, Value.or, Value.or, h.isTruthy_eq]
    split
    case isTrue => exact .ok h
    case isFalse => exact .ok h'

/-- Operators give outcomes that are alike for operands that are alike, if no two arrays or objects
have one counterpart. -/
theorem isRespected_alike (hone : Relator.BiUnique one) : IsRespected (Alike one) := by
  intro nesting operator operands others h
  cases h with
  | nil => cases operator <;> exact .error _
  | cons hfirst hrest =>
    cases hrest with
    | nil =>
      cases operator with
      | not =>
        rw [Operator.apply, Operator.apply, Value.not, Value.not, hfirst.isTruthy_eq]
        exact .ok (.bool _)
      | binary => exact .error _
    | cons hsecond hmore =>
      cases hmore with
      | nil =>
        cases operator with
        | not => exact .error _
        | binary operator => exact related_binary hone operator hfirst hsecond
      | cons _ hothers =>
        have hlength := hothers.length_eq
        cases operator <;> simp only [Operator.apply, List.length_cons, hlength] <;> exact .error _

end Criteria.Value
