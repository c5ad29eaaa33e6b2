import Mathlib.Data.List.Infix
import Criteria.Operator.Apply
import Criteria.Proofs.Json.Object
import Criteria.Proofs.Value.Match

/-!
# What a collection contains

A sample that is the JSON text of an object is a pattern, and a collection contains what some element
of it meets.

* `holds_pattern_iff`: patterns are met as `isMatch` says, and the one without members by elements of
  any kind;
* `applySymbol_contains_mono`: where a pattern is met, each one that asks for no more is met too;
* `applySymbol_contains_text`: in a text, samples other than patterns are searched for as they stand.
  Its elements are no objects, so of all patterns only the one without members is met there.
-/

namespace Criteria.Value

variable {a element sample : Value} {elements : List Value} {pattern weaker : Members}
  {t part whole : Text} {nesting : Nat} {i j : Identity}

/-- The values that hold elements: the empty ones, arrays, objects and texts. -/
def IsCollection (a : Value) : Prop :=
  a.kind ∈ [Kind.undefined, .null, .array, .object, .string]

instance : DecidablePred IsCollection := fun a =>
  inferInstanceAs (Decidable (a.kind ∈ [Kind.undefined, .null, .array, .object, .string]))

theorem exists_elements?_iff : (∃ elements, a.elements? = some elements) ↔ IsCollection a := by
  cases a <;> simp [elements?, IsCollection, kind]

theorem applySymbol_contains (h : a.elements? = some elements) :
    applySymbol nesting "contains" [a, sample] =
      .ok (.bool (a.holds nesting elements sample)) := by
  refine (@applySymbol_symbol_eq_ok_iff _ .contains _ _ _).2 ?_
  rw [BinaryOperator.apply, contains, h]

/-! ### Patterns -/

/-- Whether an element meets the members of a pattern, if there are any. -/
def Meets (element : Value) (pattern : Members) : Prop :=
  pattern = [] ∨ isMatch element (.object 0 pattern) = true

theorem holds_pattern_iff (h : Json.read nesting t = .ok (.object i pattern)) :
    a.holds nesting elements (.str t) = true ↔ ∃ element ∈ elements, Meets element pattern := by
  have hpattern : (Value.str t).pattern? nesting = some pattern := by rw [pattern?, h]
  cases pattern with
  | nil => cases elements <;> simp [holds, hpattern, Meets]
  | cons member pattern => simp [holds, hpattern, Meets]

/-- The pattern without members meets no other pattern. -/
theorem eq_nil_of_isMatch_nil (h : isMatch (.object i []) (.object j pattern) = true) :
    pattern = [] := by
  cases pattern with
  | nil => rfl
  | cons member pattern =>
    obtain ⟨name, asked⟩ := member
    obtain ⟨_, _, ⟨⟩, hmembers⟩ := isMatch_object_iff.1 h
    obtain ⟨_, hnone, -⟩ := hmembers name asked (by simp [Members.get?])
    cases hnone

/-- What meets a pattern meets every pattern that asks for no more. -/
theorem Meets.mono (h : Meets element pattern)
    (hweaker : isMatch (.object i pattern) (.object j weaker) = true) : Meets element weaker := by
  rcases h with rfl | h
  · exact .inl (eq_nil_of_isMatch_nil hweaker)
  · refine .inr (isMatch_object_identity.trans (isMatch_trans ?_ hweaker))
    exact isMatch_object_identity.trans h

theorem holds_mono {s : Text} (hs : Json.read nesting s = .ok (.object i pattern))
    (ht : Json.read nesting t = .ok (.object j weaker))
    (hweaker : isMatch (.object i pattern) (.object j weaker) = true)
    (h : a.holds nesting elements (.str s) = true) : a.holds nesting elements (.str t) = true := by
  obtain ⟨element, helement, hmeets⟩ := (holds_pattern_iff hs).1 h
  exact (holds_pattern_iff ht).2 ⟨element, helement, hmeets.mono hweaker⟩

/-- A collection that contains what meets a pattern contains what meets a weaker one, and patterns that
meet each other are contained in the same collections. -/
theorem applySymbol_contains_mono {s : Text} (hs : Json.read nesting s = .ok (.object i pattern))
    (ht : Json.read nesting t = .ok (.object j weaker))
    (hweaker : isMatch (.object i pattern) (.object j weaker) = true) (ha : IsCollection a) :
    ∃ found foundWeaker : Bool,
      applySymbol nesting "contains" [a, .str s] = .ok (.bool found) ∧
      applySymbol nesting "contains" [a, .str t] = .ok (.bool foundWeaker) ∧
      (found = true → foundWeaker = true) ∧
      (isMatch (.object j weaker) (.object i pattern) = true → found = foundWeaker) := by
  obtain ⟨elements, helements⟩ := exists_elements?_iff.2 ha
  refine ⟨_, _, applySymbol_contains helements, applySymbol_contains helements,
    holds_mono hs ht hweaker, fun hback => Bool.eq_iff_iff.2 ?_⟩
  exact ⟨holds_mono hs ht hweaker, holds_mono ht hs hback⟩

/-- An array that has what a pattern for two members of an object asks for has what one for a single
member asks for. -/
theorem applySymbol_contains_mono_member :
    applySymbol 1000 "contains"
      [.array 0 [.null, .object 1 [(Text.ofString "k", .null), (Text.ofString "l", .bool true)]],
        .ofString "\x7b\"l\": true\x7d"] = .ok (.bool true) := by
  let item : Value := .object 1 [(Text.ofString "k", .null), (Text.ofString "l", .bool true)]
  have hboth : Json.read 1000 (Text.ofString "\x7b\"l\": true, \"k\": null\x7d") =
    .ok (.object 1 [(Text.ofString "l", .bool true), (Text.ofString "k", .null)]) := rfl
  have hone : Json.read 1000 (Text.ofString "\x7b\"l\": true\x7d") =
    .ok (.object 1 [(Text.ofString "l", .bool true)]) := rfl
  obtain ⟨found, foundOne, hfound, hfoundOne, hmono, -⟩ :=
    @applySymbol_contains_mono (.array 0 [.null, item]) _ _ _ _ _ _ _ hboth hone (by decide +kernel)
      (by decide)
  have hitem : found = true := by
    rw [applySymbol_contains rfl] at hfound
    rw [← Value.bool.inj (Except.ok.inj hfound)]
    exact (holds_pattern_iff hboth).2 ⟨item, by simp, .inr (by decide +kernel)⟩
  cases hmono hitem
  exact hfoundOne

/-! ### Texts -/

/-- A text meets no pattern but the one without members. -/
theorem meets_str_iff : Meets (.str t) pattern ↔ pattern = [] := by
  rw [Meets, isMatch_object_iff]
  simp

theorem holds_str_pattern (h : Json.read nesting part = .ok (.object i pattern)) :
    (Value.str whole).holds nesting (whole.map fun p => .str [p]) (.str part) =
      (pattern.isEmpty && !whole.isEmpty) := by
  rw [Bool.eq_iff_iff, holds_pattern_iff h]
  cases whole <;> simp [meets_str_iff]

theorem holds_str_of_not_pattern
    (h : ∀ identity pattern, Json.read nesting part ≠ .ok (.object identity pattern)) :
    (Value.str whole).holds nesting (whole.map fun p => .str [p]) (.str part) =
      decide (part <:+: whole) := by
  have hpattern : (Value.str part).pattern? nesting = none := by
    rw [pattern?]
    split
    case h_1 identity pattern hread => exact absurd hread (h identity pattern)
    case h_2 => rfl
  have hoccurs : Text.occursIn part whole = true ↔ part <:+: whole := by
    rw [Text.occursIn_iff]
    exact ⟨fun ⟨before, after, h⟩ => ⟨before, after, h.symm⟩,
      fun ⟨before, after, h⟩ => ⟨before, after, h.symm⟩⟩
  rw [Bool.eq_iff_iff, decide_eq_true_iff, holds, hpattern]
  exact hoccurs

/-- **What a text contains.** A sample that is not the JSON text of an object is contained in the texts
in which it stands, and no other samples are. One that is the JSON text of an object begins with a
brace, spaces apart. It is contained in no text if the object has members; if it has none, which is
said by a pair of braces, it is contained in every text that is not empty. -/
theorem applySymbol_contains_text (nesting : Nat) (part : Text) :
    ((∀ identity pattern, Json.read nesting part ≠ .ok (.object identity pattern)) ↔
      ∀ whole : Text, applySymbol nesting "contains" [.str whole, .str part] =
        .ok (.bool (decide (part <:+: whole)))) ∧
      (∀ identity pattern, Json.read nesting part = .ok (.object identity pattern) →
        (∃ spaces rest, Json.IsSpaces spaces ∧ part = spaces ++ .scalar '\x7b' :: rest) ∧
        ∀ whole : Text, applySymbol nesting "contains" [.str whole, .str part] =
          .ok (.bool (pattern.isEmpty && !whole.isEmpty))) ∧
      ((∃ identity, Json.read nesting part = .ok (.object identity [])) ↔
        ∃ before inside after, Json.IsSpaces before ∧ Json.IsSpaces inside ∧ Json.IsSpaces after ∧
        part = before ++ .scalar '\x7b' :: (inside ++ .scalar '\x7d' :: after)) := by
  have hpattern : ∀ identity pattern, Json.read nesting part = .ok (.object identity pattern) →
      ∀ whole : Text, applySymbol nesting "contains" [.str whole, .str part] =
        .ok (.bool (pattern.isEmpty && !whole.isEmpty)) := fun identity pattern hread whole => by
    rw [applySymbol_contains rfl, holds_str_pattern hread]
  refine ⟨⟨fun h whole => ?_, fun h identity pattern hread => ?_⟩, fun identity pattern hread =>
    ⟨Json.exists_brace_of_read_object hread, hpattern identity pattern hread⟩,
    Json.read_eq_empty_iff⟩
  · rw [applySymbol_contains rfl, holds_str_of_not_pattern h]
  · have hagree : ∀ whole : Text,
        decide (part <:+: whole) = (pattern.isEmpty && !whole.isEmpty) := fun whole =>
      Value.bool.inj (Except.ok.inj ((h whole).symm.trans (hpattern identity pattern hread whole)))
    cases pattern with
    | nil =>
      obtain ⟨spaces, rest, -, rfl⟩ := Json.exists_brace_of_read_object hread
      have hspace := of_decide_eq_true (hagree [.scalar ' '])
      simpa using hspace.subset (List.mem_append_right spaces List.mem_cons_self)
    | cons member pattern => exact of_decide_eq_false (hagree part) (List.infix_refl part)

/-- A word is found where it stands. -/
theorem applySymbol_contains_text_word :
    applySymbol 1000 "contains" [.ofString "hello", .ofString "ell"] = .ok (.bool true) := by
  have hword : ∀ identity pattern,
      Json.read 1000 (Text.ofString "ell") ≠ .ok (.object identity pattern) :=
    fun identity pattern hread => by
      obtain ⟨spaces, rest, -, htext⟩ := Json.exists_brace_of_read_object hread
      have hbrace : CodePoint.scalar '\x7b' ∈ Text.ofString "ell" :=
        htext ▸ List.mem_append_right spaces List.mem_cons_self
      exact absurd hbrace (by decide)
  exact (applySymbol_contains_text 1000 (Text.ofString "ell")).1.1 hword (Text.ofString "hello")

/-- A pair of braces is contained in a text in which it does not stand, and the JSON text of an object
with a member is not contained in itself. -/
theorem applySymbol_contains_ne_infix :
    (applySymbol 1000 "contains" [.ofString "a", .ofString "\x7b\x7d"] = .ok (.bool true) ∧
      ¬ Text.ofString "\x7b\x7d" <:+: Text.ofString "a") ∧
      applySymbol 1000 "contains" [.ofString "\x7b\"k\": true\x7d", .ofString "\x7b\"k\": true\x7d"] =
        .ok (.bool false) := by
  have hempty : Json.read 1000 (Text.ofString "\x7b\x7d") = .ok (.object 1 []) := rfl
  have hmember : Json.read 1000 (Text.ofString "\x7b\"k\": true\x7d") =
    .ok (.object 1 [(Text.ofString "k", .bool true)]) := rfl
  refine ⟨⟨?_, by decide⟩, ?_⟩
  · rw [ofString, ofString, applySymbol_contains rfl, holds_str_pattern hempty]
    rfl
  · rw [ofString, applySymbol_contains rfl, holds_str_pattern hmember]
    rfl

end Criteria.Value
