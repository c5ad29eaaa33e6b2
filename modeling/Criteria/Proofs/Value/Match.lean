import Mathlib.Logic.Relation
import Criteria.Assignment
import Criteria.Value.Match
import Criteria.Proofs.Value.Equality

/-!
# Matching is a preorder

A value meets a pattern if it has all that the pattern asks for, so values are ordered by what they
have (`isMatch_preorder`). Equality is not quite an instance of it: one and the same array or object
is equal to itself whatever it holds, while nothing meets a pattern that holds not a number.

* `isMatch_object_iff`, `isMatch_array_iff` and so on: what meets a pattern, by its kind;
* `isMatch_trans`, `isMatch_of_equal`, `isMatch_self`: the order, by induction on the pattern;
* `IsNaNFree`: the values that hold no number that is not a number; `isNaNFree_of_isMatch`: no other
  patterns are met;
* `Grows`: a value that is given more, at one place of any depth; what it met before it still meets
  (`isMatch_of_grows`), so every pattern that a value meets is met by all that it grows into;
* `growsInto_of_isMatch`: every value that meets a pattern is one that the pattern grows into.
-/

namespace Criteria.Value

variable {name : Text} {value larger pattern a b c : Value} {members patterns : Members}
  {seen : List Text} {items others patternItems : List Value} {i j : Identity}

/-! ### What meets a pattern -/

theorem meetsItems_iff :
    meetsItems items patternItems = true ↔
      ∀ pattern ∈ patternItems, ∃ item ∈ items, isMatch item pattern = true := by
  induction patternItems with
  | nil => simp [meetsItems]
  | cons pattern patternItems ih => simp [meetsItems, ih]

theorem meetsMembers_iff :
    meetsMembers members seen patterns = true ↔
      ∀ name pattern, name ∉ seen → patterns.get? name = some pattern →
        ∃ value, members.get? name = some value ∧ isMatch value pattern = true := by
  induction patterns generalizing seen with
  | nil => simp [meetsMembers, Members.get?]
  | cons member patterns ih =>
    obtain ⟨first, firstPattern⟩ := member
    rw [Members.forall_get?_cons, meetsMembers, Bool.and_eq_true, Bool.or_eq_true, ih,
      List.contains_iff_mem]
    cases Members.get? members first <;> simp

theorem isMatch_object_iff :
    isMatch value (.object i patterns) = true ↔
      ∃ j members, value = .object j members ∧ ∀ name pattern, patterns.get? name = some pattern →
        ∃ found, Members.get? members name = some found ∧ isMatch found pattern = true := by
  cases value <;> simp [isMatch, meetsMembers_iff]

theorem isMatch_array_iff :
    isMatch value (.array i patternItems) = true ↔
      ∃ j items, value = .array j items ∧
        ∀ pattern ∈ patternItems, ∃ item ∈ items, isMatch item pattern = true := by
  cases value <;> simp [isMatch, meetsItems_iff]

/-- Which object a pattern is makes no difference, only what it asks for. -/
theorem isMatch_object_identity :
    isMatch value (.object i patterns) = isMatch value (.object j patterns) := by
  cases value <;> simp [isMatch]

theorem isMatch_undefined_iff : isMatch value .undefined = true ↔ value = .undefined := by
  cases value <;> simp [isMatch, equal]

theorem isMatch_null_iff : isMatch value .null = true ↔ value = .null := by
  cases value <;> simp [isMatch, equal]

theorem isMatch_bool_iff {b : Bool} : isMatch value (.bool b) = true ↔ value = .bool b := by
  cases value <;> simp [isMatch, equal]

theorem isMatch_str_iff {text : Text} : isMatch value (.str text) = true ↔ value = .str text := by
  cases value <;> simp [isMatch, equal]

theorem isMatch_number_iff {n : Number} :
    isMatch value (.number n) = true ↔ ∃ m : Number, value = .number m ∧ m.equal n = true := by
  cases value <;> simp [isMatch, equal]

/-! ### The order -/

/-- A pattern that a pattern meets asks for no more than that one. -/
theorem isMatch_trans (hab : isMatch a b = true) (hbc : isMatch b c = true) :
    isMatch a c = true := by
  induction c using Value.induction generalizing a b with
  | undefined =>
    obtain rfl := isMatch_undefined_iff.1 hbc
    exact hab
  | null =>
    obtain rfl := isMatch_null_iff.1 hbc
    exact hab
  | bool t =>
    obtain rfl := isMatch_bool_iff.1 hbc
    exact hab
  | str text =>
    obtain rfl := isMatch_str_iff.1 hbc
    exact hab
  | number n =>
    obtain ⟨m, rfl, hmn⟩ := isMatch_number_iff.1 hbc
    obtain ⟨l, rfl, hlm⟩ := isMatch_number_iff.1 hab
    exact isMatch_number_iff.2 ⟨l, rfl, Number.equal_trans hlm hmn⟩
  | array _ wanted ih =>
    obtain ⟨_, middle, rfl, hmiddle⟩ := isMatch_array_iff.1 hbc
    obtain ⟨_, items, rfl, hitems⟩ := isMatch_array_iff.1 hab
    refine isMatch_array_iff.2 ⟨_, items, rfl, fun pattern hpattern => ?_⟩
    obtain ⟨between, hbetween, hasked⟩ := hmiddle pattern hpattern
    obtain ⟨item, hitem, hmet⟩ := hitems between hbetween
    exact ⟨item, hitem, ih pattern hpattern hmet hasked⟩
  | object _ wanted ih =>
    obtain ⟨_, middle, rfl, hmiddle⟩ := isMatch_object_iff.1 hbc
    obtain ⟨_, members, rfl, hmembers⟩ := isMatch_object_iff.1 hab
    refine isMatch_object_iff.2 ⟨_, members, rfl, fun name pattern hpattern => ?_⟩
    obtain ⟨between, hbetween, hasked⟩ := hmiddle name pattern hpattern
    obtain ⟨value, hvalue, hmet⟩ := hmembers name between hbetween
    exact ⟨value, hvalue, ih _ (Members.mem_of_get? hpattern) hmet hasked⟩

/-- Each item on one side of an equality has an equal one on the other side. -/
theorem exists_equal_of_mem {other : Value}
    (h : List.Forall₂ (fun a b => equal a b = true) items others) (hother : other ∈ others) :
    ∃ item ∈ items, equal item other = true := by
  induction h with
  | nil => cases hother
  | cons hfirst _ ih =>
    rcases List.mem_cons.1 hother with rfl | hother
    · exact ⟨_, List.mem_cons_self, hfirst⟩
    · obtain ⟨item, hitem, hequal⟩ := ih hother
      exact ⟨item, List.mem_cons_of_mem _ hitem, hequal⟩

/-- What is equal to a value meets what the value meets. -/
theorem isMatch_of_equal (hab : equal a b = true) (h : isMatch b pattern = true) :
    isMatch a pattern = true := by
  induction pattern using Value.induction generalizing a b with
  | array _ patternItems ih =>
    obtain ⟨_, others, rfl, hothers⟩ := isMatch_array_iff.1 h
    cases a with
    | array _ items =>
      rcases equal_array_iff.1 hab with hsame | hitems
      · exact hsame ▸ h
      · refine isMatch_array_iff.2 ⟨_, items, rfl, fun asked hasked => ?_⟩
        obtain ⟨other, hother, hmet⟩ := hothers asked hasked
        obtain ⟨item, hitem, hequal⟩ := exists_equal_of_mem hitems hother
        exact ⟨item, hitem, ih asked hasked hequal hmet⟩
    | _ => cases hab
  | object _ patterns ih =>
    obtain ⟨_, others, rfl, hothers⟩ := isMatch_object_iff.1 h
    cases a with
    | object _ members =>
      rcases equal_object_iff.1 hab with hsame | ⟨hnames, hmembers⟩
      · exact hsame ▸ h
      · refine isMatch_object_iff.2 ⟨_, members, rfl, fun name asked hasked => ?_⟩
        obtain ⟨other, hother, hmet⟩ := hothers name asked hasked
        obtain ⟨value, hvalue⟩ :=
          Members.has_iff.1 ((hnames name).trans (Members.has_iff.2 ⟨other, hother⟩))
        exact ⟨value, hvalue, ih _ (Members.mem_of_get? hasked)
          (hmembers name value other hvalue hother) hmet⟩
    | _ => cases hab
  | number n =>
    obtain ⟨m, rfl, hequal⟩ := isMatch_number_iff.1 h
    cases a with
    | number l => exact isMatch_number_iff.2 ⟨l, rfl, Number.equal_trans hab hequal⟩
    | _ => cases hab
  | undefined =>
    obtain rfl := isMatch_undefined_iff.1 h
    cases a <;> exact hab
  | null =>
    obtain rfl := isMatch_null_iff.1 h
    cases a <;> exact hab
  | bool t =>
    obtain rfl := isMatch_bool_iff.1 h
    cases a <;> exact hab
  | str text =>
    obtain rfl := isMatch_str_iff.1 h
    cases a <;> exact hab

/-- A value that holds no number that is not a number, at any depth. -/
inductive IsNaNFree : Value → Prop
  | undefined : IsNaNFree .undefined
  | null : IsNaNFree .null
  | bool (b : Bool) : IsNaNFree (.bool b)
  | number {n : Number} (h : n.isNaN = false) : IsNaNFree (.number n)
  | str (text : Text) : IsNaNFree (.str text)
  | array {identity : Identity} {items : List Value} (h : ∀ item ∈ items, IsNaNFree item) :
      IsNaNFree (.array identity items)
  | object {identity : Identity} {members : Members}
      (h : ∀ name value, members.get? name = some value → IsNaNFree value) :
      IsNaNFree (.object identity members)

/-- A value meets itself, unless it holds what differs from itself. -/
theorem isMatch_self (h : IsNaNFree a) : isMatch a a = true := by
  induction h with
  | number h => exact isMatch_number_iff.2 ⟨_, rfl, Number.equal_self_iff.2 h⟩
  | array h ih =>
    exact isMatch_array_iff.2 ⟨_, _, rfl, fun item hitem => ⟨item, hitem, ih item hitem⟩⟩
  | object h ih =>
    exact isMatch_object_iff.2 ⟨_, _, rfl, fun name value hvalue =>
      ⟨value, hvalue, ih name value hvalue⟩⟩
  | undefined => exact isMatch_undefined_iff.2 rfl
  | null => exact isMatch_null_iff.2 rfl
  | bool b => exact isMatch_bool_iff.2 rfl
  | str text => exact isMatch_str_iff.2 rfl

/-- A pattern that is met holds nothing that differs from itself. -/
theorem isNaNFree_of_isMatch (h : isMatch a pattern = true) : IsNaNFree pattern := by
  induction pattern using Value.induction generalizing a with
  | undefined => exact .undefined
  | null => exact .null
  | bool b => exact .bool b
  | str text => exact .str text
  | number n =>
    obtain ⟨m, rfl, hequal⟩ := isMatch_number_iff.1 h
    obtain ⟨level, -, hlevel⟩ := Number.equal_iff.1 hequal
    exact .number (Number.equal_self_iff.1 (Number.equal_iff.2 ⟨level, hlevel, hlevel⟩))
  | array _ patternItems ih =>
    obtain ⟨_, items, rfl, hitems⟩ := isMatch_array_iff.1 h
    refine .array fun asked hasked => ?_
    obtain ⟨item, -, hmet⟩ := hitems asked hasked
    exact ih asked hasked hmet
  | object _ patterns ih =>
    obtain ⟨_, members, rfl, hmembers⟩ := isMatch_object_iff.1 h
    refine .object fun name asked hasked => ?_
    obtain ⟨value, -, hmet⟩ := hmembers name asked hasked
    exact ih _ (Members.mem_of_get? hasked) hmet

/-- Equal values meet each other as patterns exactly if they hold nothing that differs from itself. -/
theorem isMatch_iff_of_equal (h : equal a b = true) : isMatch a b = true ↔ IsNaNFree b :=
  ⟨isNaNFree_of_isMatch, fun hfree => isMatch_of_equal h (isMatch_self hfree)⟩

/-! ### Values that grow -/

/-- A value is given more at one place: an object more members, an array items in another order, more
often or besides the ones it has, and what is at a deeper place likewise; or it is exchanged for one
that is equal to it. What grows may become another value, so identities are free. -/
inductive Grows : Value → Value → Prop
  | equal {value larger : Value} (h : larger.equal value = true) : Grows value larger
  | members {i j : Identity} {members larger : Members}
      (h : ∀ name value, members.get? name = some value → larger.get? name = some value) :
      Grows (.object i members) (.object j larger)
  | items {i j : Identity} {items larger : List Value} (h : items ⊆ larger) :
      Grows (.array i items) (.array j larger)
  | atMember {i j : Identity} {members : Members} {name : Text} {value larger : Value}
      (hvalue : members.get? name = some value) (h : Grows value larger) :
      Grows (.object i members) (.object j (assign name larger members))
  | atItem {i j : Identity} {front back : List Value} {item larger : Value} (h : Grows item larger) :
      Grows (.array i (front ++ item :: back)) (.array j (front ++ larger :: back))

/-- An object that has under each name what meets no less than before meets what it met. -/
theorem isMatch_object_mono {larger : Members}
    (h : ∀ name found, members.get? name = some found → ∃ more, larger.get? name = some more ∧
      ∀ pattern, isMatch found pattern = true → isMatch more pattern = true)
    (hmatch : isMatch (.object i members) pattern = true) :
    isMatch (.object j larger) pattern = true := by
  cases pattern with
  | object _ patterns =>
    refine isMatch_object_iff.2 ⟨j, larger, rfl, fun name asked hasked => ?_⟩
    obtain ⟨_, _, ⟨⟩, hmembers⟩ := isMatch_object_iff.1 hmatch
    obtain ⟨found, hfound, hmet⟩ := hmembers name asked hasked
    obtain ⟨more, hmore, hmono⟩ := h name found hfound
    exact ⟨more, hmore, hmono asked hmet⟩
  | _ => cases hmatch

/-- An array that has for each item one that meets no less meets what it met. -/
theorem isMatch_array_mono {larger : List Value}
    (h : ∀ item ∈ items, ∃ more ∈ larger,
      ∀ pattern, isMatch item pattern = true → isMatch more pattern = true)
    (hmatch : isMatch (.array i items) pattern = true) :
    isMatch (.array j larger) pattern = true := by
  cases pattern with
  | array _ patternItems =>
    refine isMatch_array_iff.2 ⟨j, larger, rfl, fun asked hasked => ?_⟩
    obtain ⟨_, _, ⟨⟩, hitems⟩ := isMatch_array_iff.1 hmatch
    obtain ⟨item, hitem, hmet⟩ := hitems asked hasked
    obtain ⟨more, hmore, hmono⟩ := h item hitem
    exact ⟨more, hmore, hmono asked hmet⟩
  | _ => cases hmatch

/-- A value that grows still meets what it met. -/
theorem isMatch_of_grows (h : Grows value larger) (hmatch : isMatch value pattern = true) :
    isMatch larger pattern = true := by
  induction h generalizing pattern with
  | equal h => exact isMatch_of_equal h hmatch
  | members h =>
    exact isMatch_object_mono (fun name found hfound =>
      ⟨found, h name found hfound, fun _ hmet => hmet⟩) hmatch
  | items h =>
    exact isMatch_array_mono (fun item hitem => ⟨item, h hitem, fun _ hmet => hmet⟩) hmatch
  | @atMember _ _ members name value larger hvalue h ih =>
    refine isMatch_object_mono (fun other found hfound => ?_) hmatch
    by_cases hname : other = name
    · subst hname
      cases hvalue.symm.trans hfound
      exact ⟨larger, lookup_assign_self, fun _ => ih⟩
    · exact ⟨found, (lookup_assign_of_ne hname).trans hfound, fun _ hmet => hmet⟩
  | @atItem _ _ front back item larger h ih =>
    refine isMatch_array_mono (fun found hfound => ?_) hmatch
    rcases List.mem_append.1 hfound with hfront | hback
    · exact ⟨found, List.mem_append_left _ hfront, fun _ hmet => hmet⟩
    · rcases List.mem_cons.1 hback with rfl | hback
      · exact ⟨larger, by simp, fun _ => ih⟩
      · exact ⟨found, by simp [hback], fun _ hmet => hmet⟩

/-- A value grows into another one by any number of steps. -/
abbrev GrowsInto : Value → Value → Prop := Relation.ReflTransGen Grows

/-- However often a value grows, it meets what it met. -/
theorem isMatch_of_growsInto (h : GrowsInto value larger) (hmatch : isMatch value pattern = true) :
    isMatch larger pattern = true := by
  induction h with
  | refl => exact hmatch
  | tail _ hgrows ih => exact isMatch_of_grows hgrows ih

/-! ### A pattern grows into what meets it -/

theorem GrowsInto.atItem {front back : List Value} {item larger : Value}
    (h : GrowsInto item larger) :
    GrowsInto (.array i (front ++ item :: back)) (.array i (front ++ larger :: back)) := by
  induction h with
  | refl => exact .refl
  | tail _ hgrows ih => exact ih.tail (.atItem hgrows)

/-- Items that grow one by one, into ones that an array has, leave an array that grows into it. -/
theorem exists_items_of_growsInto {larger : List Value}
    (h : ∀ item ∈ items, ∃ more ∈ larger, GrowsInto item more) :
    ∃ grown : List Value, grown ⊆ larger ∧
      ∀ front, GrowsInto (.array i (front ++ items)) (.array i (front ++ grown)) := by
  induction items with
  | nil => exact ⟨[], List.nil_subset _, fun _ => .refl⟩
  | cons item items ih =>
    obtain ⟨hitem, hitems⟩ := List.forall_mem_cons.1 h
    obtain ⟨more, hmore, hgrows⟩ := hitem
    obtain ⟨grown, hgrown, hrest⟩ := ih hitems
    refine ⟨more :: grown, List.cons_subset.2 ⟨hmore, hgrown⟩, fun front => ?_⟩
    have hnext := hrest (front ++ [more])
    rw [List.append_assoc, List.append_assoc] at hnext
    exact hgrows.atItem.trans hnext

theorem GrowsInto.atMember (hvalue : Members.get? members name = some value)
    (h : GrowsInto value larger) :
    GrowsInto (.object i members) (.object i (assign name larger members)) := by
  induction h with
  | refl =>
    refine .single (.members fun other found hfound => ?_)
    by_cases hname : other = name
    · subst hname
      cases hvalue.symm.trans hfound
      exact lookup_assign_self
    · exact (lookup_assign_of_ne hname).trans hfound
  | @tail between larger _ hgrows ih =>
    have hbetween : Members.get? (assign name between members) name = some between :=
      lookup_assign_self
    have hlast := @Grows.atMember i i _ _ _ _ hbetween hgrows
    rw [assign_assign] at hlast
    exact ih.tail hlast

/-- Members that grow one by one, name after name, leave an object that grows into one that has
them. -/
theorem growsInto_object {larger : Members} {names : List Text}
    (h : ∀ name value, members.get? name = some value → ∃ more, larger.get? name = some more ∧
      (more = value ∨ name ∈ names ∧ GrowsInto value more)) :
    GrowsInto (.object i members) (.object j larger) := by
  induction names generalizing members with
  | nil =>
    refine .single (.members fun name value hvalue => ?_)
    obtain ⟨more, hmore, heq⟩ := h name value hvalue
    rw [hmore, heq.resolve_right fun hmem => List.not_mem_nil hmem.1]
  | cons first names ih =>
    cases hfirst : Members.get? members first with
    | none =>
      refine ih fun name value hvalue => ?_
      obtain ⟨more, hmore, hgrown⟩ := h name value hvalue
      refine ⟨more, hmore, hgrown.imp_right fun ⟨hmem, hgrows⟩ => ⟨?_, hgrows⟩⟩
      refine (List.mem_cons.1 hmem).resolve_left ?_
      rintro rfl
      cases hfirst.symm.trans hvalue
    | some value =>
      obtain ⟨more, hmore, hgrown⟩ := h first value hfirst
      have hgrows : GrowsInto value more := by
        rcases hgrown with rfl | ⟨-, hgrows⟩
        · exact .refl
        · exact hgrows
      refine (GrowsInto.atMember hfirst hgrows).trans (ih fun name found hfound => ?_)
      by_cases hname : name = first
      · subst hname
        obtain rfl := Option.some.inj (lookup_assign_self.symm.trans hfound)
        exact ⟨more, hmore, .inl rfl⟩
      · obtain ⟨other, hother, hgrown⟩ := h name found ((lookup_assign_of_ne hname).symm.trans hfound)
        refine ⟨other, hother, hgrown.imp_right fun ⟨hmem, hgrows⟩ => ⟨?_, hgrows⟩⟩
        exact (List.mem_cons.1 hmem).resolve_left hname

/-- A pattern can be grown into every value that meets it. -/
theorem growsInto_of_isMatch (h : isMatch value pattern = true) : GrowsInto pattern value := by
  induction pattern using Value.induction generalizing value with
  | undefined =>
    obtain rfl := isMatch_undefined_iff.1 h
    exact .refl
  | null =>
    obtain rfl := isMatch_null_iff.1 h
    exact .refl
  | bool b =>
    obtain rfl := isMatch_bool_iff.1 h
    exact .refl
  | str text =>
    obtain rfl := isMatch_str_iff.1 h
    exact .refl
  | number n =>
    obtain ⟨m, rfl, hequal⟩ := isMatch_number_iff.1 h
    exact .single (.equal hequal)
  | array i patternItems ih =>
    obtain ⟨j, items, rfl, hitems⟩ := isMatch_array_iff.1 h
    obtain ⟨grown, hgrown, hgrows⟩ := @exists_items_of_growsInto _ i _ fun asked hasked => by
      obtain ⟨item, hitem, hmet⟩ := hitems asked hasked
      exact ⟨item, hitem, ih asked hasked hmet⟩
    exact (hgrows []).tail (.items hgrown)
  | object i patterns ih =>
    obtain ⟨j, members, rfl, hmembers⟩ := isMatch_object_iff.1 h
    refine @growsInto_object _ i j _ (patterns.map Prod.fst) fun name asked hasked => ?_
    obtain ⟨found, hfound, hmet⟩ := hmembers name asked hasked
    have hmem := Members.mem_of_get? hasked
    exact ⟨found, hfound, .inr ⟨List.mem_map_of_mem hmem, ih _ hmem hmet⟩⟩

/-- **Matching is a preorder that extends equality but for not a number.** What meets a pattern meets
all that the pattern meets. Of equal values the first one meets the second one exactly if that holds
nothing that differs from itself, and so a value meets itself. A pattern that is met by a value is met
by everything that the value grows into, and the values that meet a pattern are the ones that the
pattern itself grows into. -/
theorem isMatch_preorder :
    (∀ a b c : Value, isMatch a b = true → isMatch b c = true → isMatch a c = true) ∧
      (∀ a b : Value, equal a b = true → (isMatch a b = true ↔ IsNaNFree b)) ∧
      (∀ a : Value, isMatch a a = true ↔ IsNaNFree a) ∧
      (∀ value larger pattern : Value, GrowsInto value larger →
        isMatch value pattern = true → isMatch larger pattern = true) ∧
      ∀ value pattern : Value, IsNaNFree pattern →
        (isMatch value pattern = true ↔ GrowsInto pattern value) :=
  ⟨fun _ _ _ => isMatch_trans, fun _ _ => isMatch_iff_of_equal,
    fun _ => ⟨isNaNFree_of_isMatch, isMatch_self⟩, fun _ _ _ => isMatch_of_growsInto,
    fun _ _ hfree =>
      ⟨growsInto_of_isMatch, fun hgrows => isMatch_of_growsInto hgrows (isMatch_self hfree)⟩⟩

/-- An array still meets a pattern when its items change places and then one of them is given a
member. -/
theorem isMatch_preorder_items :
    isMatch
      (.array 2
        [.bool true, .object 1 [(Text.ofString "k", .int 1), (Text.ofString "l", .null)]])
      (.array 0 [.object 1 [(Text.ofString "k", .int 1)], .bool true]) = true := by
  let item : Value := .object 1 [(Text.ofString "k", .int 1)]
  let given : Value := .object 1 [(Text.ofString "k", .int 1), (Text.ofString "l", .null)]
  have hfree : IsNaNFree item := by
    refine .object fun name value hvalue => ?_
    obtain ⟨rfl, rfl⟩ := Prod.mk.inj (List.mem_singleton.1 (Members.mem_of_get? hvalue))
    exact .number rfl
  have hself : isMatch (.array 0 [item, .bool true]) (.array 0 [item, .bool true]) = true :=
    (isMatch_preorder.2.2.1 _).2 (.array (by simpa using ⟨hfree, .bool true⟩))
  have hreordered : Grows (.array 0 [item, .bool true]) (.array 1 [.bool true, item]) :=
    .items (by simp)
  have hgiven :
      Grows (.array 1 ([.bool true] ++ item :: [])) (.array 2 ([.bool true] ++ given :: [])) := by
    refine .atItem (.members fun name value hvalue => ?_)
    obtain ⟨rfl, rfl⟩ := Prod.mk.inj (List.mem_singleton.1 (Members.mem_of_get? hvalue))
    simp [Members.get?]
  exact isMatch_preorder.2.2.2.1 _ _ _ (.tail (.single hreordered) hgiven) hself

/-- An array that holds not a number is equal to itself, and does not meet itself. -/
theorem equal_not_isMatch :
    let items : Value := .array 0 [.number (.double .nan)]
    equal items items = true ∧ isMatch items items = false :=
  ⟨by decide, by decide⟩

end Criteria.Value
