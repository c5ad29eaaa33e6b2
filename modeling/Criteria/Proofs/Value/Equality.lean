import Mathlib.Data.List.Forall2
import Criteria.Value.Equality

/-!
# Equality, kind by kind

What it takes for two values to be equal, by the kind of the second one. Of an object only the values
count that its names have, so everything is said in terms of `Members.get?`.

* `Value.induction`: induction over values, in which items and members are smaller values;
* `Number.equal_iff`: numbers are equal if they have one place on the line of numbers;
* `isIdentical_iff`: one and the same are values that agree in all they have, identities included;
* `equalItems_iff`, `equalMembers_iff`: the loops over items and members as statements about all of
  them;
* `equal_array_iff`, `equal_object_iff`: arrays and objects that are equal without being one and the
  same.
-/

namespace Criteria

variable {name : Text} {value : Value} {members others rest : Members} {seen : List Text}

namespace Number

variable {a b c : Number}

theorem equal_iff : a.equal b = true ↔ ∃ level, a.level? = some level ∧ b.level? = some level := by
  rw [equal]
  cases a.level? with
  | none => simp
  | some level =>
    cases b.level? with
    | none => simp
    | some other =>
      rw [beq_iff_eq]
      constructor
      · rintro rfl
        exact ⟨level, rfl, rfl⟩
      · rintro ⟨_, hlevel, hother⟩
        exact Option.some.inj (hlevel.trans hother.symm)

theorem equal_trans (hab : a.equal b = true) (hbc : b.equal c = true) : a.equal c = true := by
  obtain ⟨level, ha, hb⟩ := equal_iff.1 hab
  obtain ⟨other, hb', hc⟩ := equal_iff.1 hbc
  rw [hb] at hb'
  exact equal_iff.2 ⟨level, ha, hc.trans hb'.symm⟩

/-- Only not a number differs from itself. -/
theorem equal_self_iff : a.equal a = true ↔ a.isNaN = false := by
  rw [equal_iff]
  rcases a with n | x
  · exact iff_of_true ⟨_, rfl, rfl⟩ rfl
  · cases x with
    | nan => exact iff_of_false (fun ⟨_, h, _⟩ => nomatch h) fun h => nomatch h
    | infinity negative => exact iff_of_true ⟨_, rfl, rfl⟩ rfl
    | finite negative significand shift canonical => exact iff_of_true ⟨_, rfl, rfl⟩ rfl

end Number

/-- Induction over values: what holds of an array if it holds of its items, of an object if it holds of
its members, and of all other values, holds of every value. -/
@[elab_as_elim]
theorem Value.induction {motive : Value → Prop} (undefined : motive .undefined) (null : motive .null)
    (bool : ∀ b, motive (.bool b)) (number : ∀ n, motive (.number n))
    (str : ∀ text, motive (.str text))
    (array : ∀ identity items, (∀ item ∈ items, motive item) → motive (.array identity items))
    (object : ∀ identity (members : Members), (∀ member ∈ members, motive member.2) →
      motive (.object identity members))
    (value : Value) : motive value :=
  @Value.rec motive (fun items => ∀ item ∈ items, motive item)
    (fun members => ∀ member ∈ members, motive member.2) (fun member => motive member.2)
    undefined null bool number str array object
    (fun _ hitem => nomatch hitem) (fun _ _ hfirst hrest => List.forall_mem_cons.2 ⟨hfirst, hrest⟩)
    (fun _ hmember => nomatch hmember)
    (fun _ _ hfirst hrest => List.forall_mem_cons.2 ⟨hfirst, hrest⟩) (fun _ _ hvalue => hvalue) value

namespace Members

/-- A name has a value that is among the members. -/
theorem mem_of_get? (h : get? members name = some value) : (name, value) ∈ members := by
  induction members with
  | nil => cases h
  | cons member members ih =>
    obtain ⟨first, firstValue⟩ := member
    rw [get?, List.lookup_cons] at h
    split at h
    case h_1 heq =>
      cases h
      cases beq_iff_eq.1 heq
      exact List.mem_cons_self
    case h_2 => exact List.mem_cons_of_mem _ (ih h)

theorem has_iff : has members name = true ↔ ∃ value, get? members name = some value := by
  induction members with
  | nil => simp [has, get?]
  | cons member members ih =>
    obtain ⟨first, firstValue⟩ := member
    rw [get?, List.lookup_cons]
    by_cases hname : first = name
    · simp [has, hname]
    · have hbeq : (name == first) = false := by simpa using Ne.symm hname
      rw [hbeq, ← get?, ← ih]
      simp [has, hname]

/-- What holds of the names that have not been seen, one member at a time: a member counts unless its
name has been seen. -/
theorem forall_get?_cons {P : Text → Value → Prop} {first : Text} {firstValue : Value} :
    (∀ name value, name ∉ seen → get? ((first, firstValue) :: rest) name = some value →
        P name value) ↔
      (first ∈ seen ∨ P first firstValue) ∧
        ∀ name value, name ∉ first :: seen → get? rest name = some value → P name value := by
  constructor
  · intro h
    refine ⟨?_, fun name value hseen hvalue => ?_⟩
    · by_cases hfirst : first ∈ seen
      · exact .inl hfirst
      · exact .inr (h first firstValue hfirst (by simp [get?]))
    · obtain ⟨hne, hseen⟩ := List.ne_and_not_mem_of_not_mem_cons hseen
      refine h name value hseen ?_
      have hbeq : (name == first) = false := by simpa using hne
      rw [get?, List.lookup_cons, hbeq]
      exact hvalue
  · rintro ⟨hfirst, hrest⟩ name value hseen hvalue
    rw [get?, List.lookup_cons] at hvalue
    split at hvalue
    case h_1 heq =>
      cases hvalue
      cases beq_iff_eq.1 heq
      exact hfirst.resolve_left hseen
    case h_2 hne =>
      have hne : name ≠ first := by simpa using hne
      exact hrest name value (List.not_mem_cons_of_ne_of_not_mem hne hseen) hvalue

end Members

namespace Value

/-! ### One and the same value -/

theorem isIdenticalItems_iff {items others : List Value}
    (h : ∀ item ∈ items, ∀ other, isIdentical item other = true ↔ item = other) :
    isIdenticalItems items others = true ↔ items = others := by
  induction items generalizing others with
  | nil => cases others <;> simp [isIdenticalItems]
  | cons item items ih =>
    obtain ⟨hfirst, hrest⟩ := List.forall_mem_cons.1 h
    cases others with
    | nil => simp [isIdenticalItems]
    | cons other others =>
      rw [isIdenticalItems, Bool.and_eq_true, hfirst, ih hrest, List.cons.injEq]

theorem isIdenticalMembers_iff
    (h : ∀ member ∈ members, ∀ other, isIdentical member.2 other = true ↔ member.2 = other) :
    isIdenticalMembers members others = true ↔ members = others := by
  induction members generalizing others with
  | nil => cases others <;> simp [isIdenticalMembers]
  | cons member members ih =>
    obtain ⟨name, value⟩ := member
    obtain ⟨hfirst, hrest⟩ := List.forall_mem_cons.1 h
    cases others with
    | nil => simp [isIdenticalMembers]
    | cons other others =>
      obtain ⟨otherName, otherValue⟩ := other
      rw [isIdenticalMembers, Bool.and_eq_true, Bool.and_eq_true, beq_iff_eq, hfirst, ih hrest,
        List.cons.injEq, Prod.mk.injEq]

/-- Values are one and the same exactly if they agree in all they have, identities included. -/
theorem isIdentical_iff {a b : Value} : isIdentical a b = true ↔ a = b := by
  induction a using Value.induction generalizing b with
  | array identity items ih =>
    cases b <;> simp [isIdentical, isIdenticalItems_iff fun item hitem _ => ih item hitem]
  | object identity members ih =>
    cases b <;> simp [isIdentical, isIdenticalMembers_iff fun member hmember _ => ih member hmember]
  | _ => cases b <;> simp [isIdentical]

instance : DecidableEq Value := fun _ _ => decidable_of_iff _ isIdentical_iff

/-! ### Equal values -/

theorem equalItems_iff {items others : List Value} :
    equalItems items others = true ↔ List.Forall₂ (fun a b => equal a b = true) items others := by
  induction items generalizing others with
  | nil => cases others <;> simp [equalItems]
  | cons item items ih => cases others <;> simp [equalItems, ih]

theorem equalMembers_iff :
    equalMembers seen rest others = true ↔
      ∀ name value, name ∉ seen → rest.get? name = some value →
        ∃ other, others.get? name = some other ∧ equal value other = true := by
  induction rest generalizing seen with
  | nil => simp [equalMembers, Members.get?]
  | cons member rest ih =>
    obtain ⟨first, firstValue⟩ := member
    rw [Members.forall_get?_cons, equalMembers, Bool.and_eq_true, Bool.or_eq_true, ih,
      List.contains_iff_mem]
    cases Members.get? others first <;> simp

variable {i j : Identity}

/-- Arrays are equal if they are one and the same, or if each item is equal to the one in its place. -/
theorem equal_array_iff {items others : List Value} :
    equal (.array i items) (.array j others) = true ↔
      Value.array i items = .array j others ∨
        List.Forall₂ (fun a b => equal a b = true) items others := by
  rw [equal, Bool.or_eq_true, isIdentical_iff, equalItems_iff]

/-- Objects are equal if they are one and the same, or if they have the same names and equal values
under each of them. -/
theorem equal_object_iff :
    equal (.object i members) (.object j others) = true ↔
      Value.object i members = .object j others ∨ (∀ name, members.has name = others.has name) ∧
        ∀ name value other, members.get? name = some value → others.get? name = some other →
          equal value other = true := by
  rw [equal, Bool.or_eq_true, isIdentical_iff, Bool.and_eq_true, equalMembers_iff]
  refine or_congr_right ⟨?_, ?_⟩
  · rintro ⟨hnames, hmembers⟩
    refine ⟨fun name => Bool.eq_iff_iff.2 ⟨fun hhas => ?_, fun hhas => ?_⟩,
      fun name value other hvalue hother => ?_⟩
    · obtain ⟨value, hvalue⟩ := Members.has_iff.1 hhas
      obtain ⟨other, hother, -⟩ := hmembers name value List.not_mem_nil hvalue
      exact Members.has_iff.2 ⟨other, hother⟩
    · obtain ⟨other, hother⟩ := Members.has_iff.1 hhas
      exact List.all_eq_true.1 hnames _ (Members.mem_of_get? hother)
    · obtain ⟨found, hfound, hequal⟩ := hmembers name value List.not_mem_nil hvalue
      cases hother.symm.trans hfound
      exact hequal
  · rintro ⟨hnames, hmembers⟩
    refine ⟨List.all_eq_true.2 fun other hother => ?_, fun name value _ hvalue => ?_⟩
    · rw [hnames]
      exact List.any_eq_true.2 ⟨other, hother, beq_self_eq_true _⟩
    · have hhas : others.has name = true :=
        (hnames name).symm.trans (Members.has_iff.2 ⟨value, hvalue⟩)
      obtain ⟨other, hother⟩ := Members.has_iff.1 hhas
      exact ⟨other, hother, hmembers name value other hvalue hother⟩

end Value

end Criteria
