import Criteria.Proofs.Value.Equivalence

/-!
# Ordering is a strict total order

Numbers come one before the other as the points of the line that they stand for, texts as the numbers
of their code points, the first difference deciding (`Before`). No other value comes before another.
That is a strict total order, and it goes with equality (`ordering_strict_total`).

* `applySymbol_less_iff`, `applySymbol_greater_iff`: `<` and `>` say which value comes before the
  other;
* `exists_ordering`: between numbers other than not a number, and between texts, exactly one of `<`,
  `==` and `>` holds;
* `ordering_congr_left`, `ordering_congr_right`: an ordering makes no difference between equal values.
-/

namespace Criteria

/-! ### The order of texts -/

/-- A code point is known by its number: the numbers of surrogates are no numbers of characters. -/
theorem CodePoint.toNat_injective : Function.Injective CodePoint.toNat := by
  intro p q h
  cases p with
  | scalar c =>
    have hc : c.toNat < 0xD800 ∨ 0xDFFF < c.toNat ∧ c.toNat < 0x110000 := c.valid
    cases q with
    | scalar d => rw [Char.toNat_inj.1 h]
    | surrogate offset =>
      have hoffset := offset.isLt
      simp only [toNat, firstSurrogate] at h
      omega
  | surrogate offset =>
    have hoffset := offset.isLt
    cases q with
    | scalar d =>
      have hd : d.toNat < 0xD800 ∨ 0xDFFF < d.toNat ∧ d.toNat < 0x110000 := d.valid
      simp only [toNat, firstSurrogate] at h
      omega
    | surrogate other => rw [Fin.ext (Nat.add_left_cancel h)]

namespace Text

variable {s t : Text}

/-- The numbers of the code points of a text. -/
def numbers (t : Text) : List ℕ := t.map CodePoint.toNat

theorem numbers_inj : s.numbers = t.numbers ↔ s = t :=
  (List.map_injective_iff.2 CodePoint.toNat_injective).eq_iff

theorem precedes_iff : precedes s t = true ↔ s.numbers < t.numbers := by
  induction s generalizing t with
  | nil => cases t <;> simp [precedes, numbers]
  | cons p s ih =>
    cases t with
    | nil => simp [precedes, numbers]
    | cons q t =>
      simp only [numbers, List.map_cons, List.cons_lt_cons_iff] at ih ⊢
      rw [precedes, Bool.or_eq_true, Bool.and_eq_true, decide_eq_true_iff, beq_iff_eq, ih,
        CodePoint.toNat_injective.eq_iff]

end Text

/-! ### Numbers and equality -/

namespace Number

variable {m n l : Number}

theorem less_congr_left (h : m.equal n = true) : m.less l = n.less l := by
  obtain ⟨level, hm, hn⟩ := equal_iff.1 h
  rw [less, less, hm, hn]

theorem less_congr_right (h : m.equal n = true) : l.less m = l.less n := by
  obtain ⟨level, hm, hn⟩ := equal_iff.1 h
  rw [less, less, hm, hn]

end Number

namespace Value

variable {a b c : Value} {symbol : String} {ofNumbers : Number → Number → Bool}
  {ofTexts : Text → Text → Bool} {nesting : Nat}

/-- One value comes before another one. -/
inductive Before : Value → Value → Prop
  | numbers {m n : Number} {u v : Line} (hm : m.point? = some u) (hn : n.point? = some v)
      (h : u < v) : Before (.number m) (.number n)
  | texts {s t : Text} (h : s.numbers < t.numbers) : Before (.str s) (.str t)

theorem Before.trans (hab : Before a b) (hbc : Before b c) : Before a c := by
  cases hab with
  | numbers hl hm huv =>
    cases hbc with
    | numbers hm' hn hvw =>
      obtain rfl := Option.some.inj (hm.symm.trans hm')
      exact .numbers hl hn (huv.trans hvw)
  | texts hst =>
    cases hbc with
    | texts htr => exact .texts (List.lt_trans hst htr)

/-! ### What an ordering says -/

/-- An ordering holds of two numbers, or of two texts. -/
theorem ordering_eq_true_iff :
    ordering symbol ofNumbers ofTexts a b = .ok (.bool true) ↔
      (∃ m n, a = .number m ∧ b = .number n ∧ ofNumbers m n = true) ∨
        ∃ s t, a = .str s ∧ b = .str t ∧ ofTexts s t = true := by
  cases a <;> cases b <;> simp [ordering, isNullish]

theorem before_iff :
    Before a b ↔ (∃ m n : Number, a = .number m ∧ b = .number n ∧ m.less n = true) ∨
      ∃ s t : Text, a = .str s ∧ b = .str t ∧ s.precedes t = true := by
  constructor
  · rintro (⟨hm, hn, h⟩ | h)
    · exact .inl ⟨_, _, rfl, rfl, Number.less_iff_point?.2 ⟨_, _, hm, hn, h⟩⟩
    · exact .inr ⟨_, _, rfl, rfl, Text.precedes_iff.2 h⟩
  · rintro (⟨m, n, rfl, rfl, h⟩ | ⟨s, t, rfl, rfl, h⟩)
    · obtain ⟨u, v, hm, hn, h⟩ := Number.less_iff_point?.1 h
      exact .numbers hm hn h
    · exact .texts (Text.precedes_iff.1 h)

theorem applySymbol_less_iff : applySymbol nesting "<" [a, b] = .ok (.bool true) ↔ Before a b :=
  (@applySymbol_symbol_eq_ok_iff _ .less _ _ _).trans (ordering_eq_true_iff.trans before_iff.symm)

theorem applySymbol_greater_iff : applySymbol nesting ">" [a, b] = .ok (.bool true) ↔ Before b a := by
  refine (@applySymbol_symbol_eq_ok_iff _ .greater _ _ _).trans (ordering_eq_true_iff.trans ?_)
  rw [before_iff]
  constructor
  · rintro (⟨m, n, ha, hb, h⟩ | ⟨s, t, ha, hb, h⟩)
    · exact .inl ⟨n, m, hb, ha, h⟩
    · exact .inr ⟨t, s, hb, ha, h⟩
  · rintro (⟨m, n, hb, ha, h⟩ | ⟨s, t, hb, ha, h⟩)
    · exact .inl ⟨n, m, ha, hb, h⟩
    · exact .inr ⟨t, s, ha, hb, h⟩

/-! ### Exactly one -/

/-- Two values have an order: both are numbers other than not a number, or both are texts. -/
inductive Comparable : Value → Value → Prop
  | numbers {m n : Number} (hm : m.isNaN = false) (hn : n.isNaN = false) :
      Comparable (.number m) (.number n)
  | texts (s t : Text) : Comparable (.str s) (.str t)

/-- Three answers about a linear order are those of one ordering, so one of them is yes. -/
theorem exists_ordering_of_iff {α : Type} [LinearOrder α] {x y : α} {less equal greater : Bool}
    (hless : less = true ↔ x < y) (hequal : equal = true ↔ x = y)
    (hgreater : greater = true ↔ y < x) :
    ∃ order : Ordering, less = order.isLT ∧ equal = order.isEq ∧ greater = order.isGT := by
  rcases lt_trichotomy x y with h | h | h
  · exact ⟨.lt, hless.2 h, Bool.eq_false_iff.2 fun heq => h.ne (hequal.1 heq),
      Bool.eq_false_iff.2 fun hgt => h.not_gt (hgreater.1 hgt)⟩
  · exact ⟨.eq, Bool.eq_false_iff.2 fun hlt => (hless.1 hlt).ne h, hequal.2 h,
      Bool.eq_false_iff.2 fun hgt => (hgreater.1 hgt).ne' h⟩
  · exact ⟨.gt, Bool.eq_false_iff.2 fun hlt => h.not_gt (hless.1 hlt),
      Bool.eq_false_iff.2 fun heq => h.ne' (hequal.1 heq), hgreater.2 h⟩

/-- Of two values that have an order exactly one of three things holds. -/
theorem exists_ordering (h : Comparable a b) :
    ∃ order : Ordering, applySymbol nesting "<" [a, b] = .ok (.bool order.isLT) ∧
      applySymbol nesting "==" [a, b] = .ok (.bool order.isEq) ∧
      applySymbol nesting ">" [a, b] = .ok (.bool order.isGT) := by
  cases h with
  | @numbers m n hm hn =>
    obtain ⟨u, hu⟩ := Number.exists_point?_iff.2 hm
    obtain ⟨v, hv⟩ := Number.exists_point?_iff.2 hn
    have hless : m.less n = true ↔ u < v := by simp [Number.less_iff_point?, hu, hv]
    have hequal : m.equal n = true ↔ u = v := by
      rw [Number.equal_iff_point?, hu, hv]
      constructor
      · rintro ⟨_, ⟨⟩, ⟨⟩⟩
        rfl
      · rintro rfl
        exact ⟨u, rfl, rfl⟩
    have hgreater : n.less m = true ↔ v < u := by simp [Number.less_iff_point?, hu, hv]
    obtain ⟨order, hlt, heq, hgt⟩ := exists_ordering_of_iff hless hequal hgreater
    exact ⟨order, hlt ▸ rfl, heq ▸ rfl, hgt ▸ rfl⟩
  | texts s t =>
    have hequal : (s == t) = true ↔ s.numbers = t.numbers := beq_iff_eq.trans Text.numbers_inj.symm
    obtain ⟨order, hlt, heq, hgt⟩ :=
      exists_ordering_of_iff Text.precedes_iff hequal Text.precedes_iff
    exact ⟨order, hlt ▸ rfl, heq ▸ rfl, hgt ▸ rfl⟩

/-! ### Equal values -/

/-- The left side of an ordering can be exchanged for an equal value. -/
theorem ordering_congr_left
    (hnumbers : ∀ m n l : Number, m.equal n = true → ofNumbers m l = ofNumbers n l)
    (h : equal a b = true) :
    ordering symbol ofNumbers ofTexts a c = ordering symbol ofNumbers ofTexts b c := by
  cases same_of_equal h with
  | @number m n =>
    cases c with
    | number l => simp [ordering, isNullish, hnumbers m n l h]
    | _ => rfl
  | array | oneArray => cases c <;> rfl
  | object | oneObject => cases c <;> rfl
  | _ => rfl

/-- The right side of an ordering can be exchanged for an equal value. -/
theorem ordering_congr_right
    (hnumbers : ∀ m n l : Number, m.equal n = true → ofNumbers l m = ofNumbers l n)
    (h : equal a b = true) :
    ordering symbol ofNumbers ofTexts c a = ordering symbol ofNumbers ofTexts c b := by
  cases same_of_equal h with
  | @number m n =>
    cases c with
    | number l => simp [ordering, isNullish, hnumbers m n l h]
    | _ => rfl
  | array | oneArray => cases c <;> rfl
  | object | oneObject => cases c <;> rfl
  | _ => rfl

theorem applySymbol_less_congr (h : equal a b = true) :
    applySymbol nesting "<" [a, c] = applySymbol nesting "<" [b, c] ∧
      applySymbol nesting "<" [c, a] = applySymbol nesting "<" [c, b] :=
  ⟨@applySymbol_symbol_congr _ .less _ _ _ _
      (ordering_congr_left (fun _ _ _ => Number.less_congr_left) h),
    @applySymbol_symbol_congr _ .less _ _ _ _
      (ordering_congr_right (fun _ _ _ => Number.less_congr_right) h)⟩

theorem applySymbol_greater_congr (h : equal a b = true) :
    applySymbol nesting ">" [a, c] = applySymbol nesting ">" [b, c] ∧
      applySymbol nesting ">" [c, a] = applySymbol nesting ">" [c, b] :=
  ⟨@applySymbol_symbol_congr _ .greater _ _ _ _
      (ordering_congr_left (fun _ _ _ => Number.less_congr_right) h),
    @applySymbol_symbol_congr _ .greater _ _ _ _
      (ordering_congr_right (fun _ _ _ => Number.less_congr_left) h)⟩

/-- **Ordering is a strict total order that goes with equality.** `<` holds of the values that come one
before the other, in exact numbers and by code points, and `>` is `<` from the other side. Of two
numbers other than not a number, and of two texts, exactly one of `<`, `==` and `>` holds. `<` is
transitive, and equal values can be exchanged on either side of `<` and `>`. -/
theorem ordering_strict_total (nesting : Nat) :
    (∀ a b : Value, applySymbol nesting "<" [a, b] = .ok (.bool true) ↔ Before a b) ∧
      (∀ a b : Value, applySymbol nesting ">" [a, b] = .ok (.bool true) ↔
        applySymbol nesting "<" [b, a] = .ok (.bool true)) ∧
      (∀ a b : Value, Comparable a b → ∃ order : Ordering,
        applySymbol nesting "<" [a, b] = .ok (.bool order.isLT) ∧
          applySymbol nesting "==" [a, b] = .ok (.bool order.isEq) ∧
          applySymbol nesting ">" [a, b] = .ok (.bool order.isGT)) ∧
      (∀ a b c : Value, applySymbol nesting "<" [a, b] = .ok (.bool true) →
        applySymbol nesting "<" [b, c] = .ok (.bool true) →
        applySymbol nesting "<" [a, c] = .ok (.bool true)) ∧
      ∀ a b c : Value, equal a b = true →
        (applySymbol nesting "<" [a, c] = applySymbol nesting "<" [b, c] ∧
          applySymbol nesting "<" [c, a] = applySymbol nesting "<" [c, b]) ∧
        applySymbol nesting ">" [a, c] = applySymbol nesting ">" [b, c] ∧
          applySymbol nesting ">" [c, a] = applySymbol nesting ">" [c, b] := by
  refine ⟨fun _ _ => applySymbol_less_iff,
    fun _ _ => applySymbol_greater_iff.trans applySymbol_less_iff.symm, fun _ _ => exists_ordering,
    fun a b c hab hbc => ?_, fun _ _ _ h => ⟨applySymbol_less_congr h, applySymbol_greater_congr h⟩⟩
  rw [applySymbol_less_iff] at hab hbc ⊢
  exact hab.trans hbc

/-- Where doubles are two apart, a double, the next integer and the infinity come one after the other,
and the integer that the double is equal to can take its place. -/
theorem ordering_strict_total_next :
    let whole : Value := .int 9007199254740992
    let double : Value := .number (.double (.ofInt 9007199254740992))
    let next : Value := .int 9007199254740993
    let infinity : Value := .number (.double (.infinity false))
    (∃ order : Ordering, applySymbol 1000 "<" [double, next] = .ok (.bool order.isLT) ∧
      applySymbol 1000 "==" [double, next] = .ok (.bool order.isEq)) ∧
      applySymbol 1000 "<" [double, infinity] = .ok (.bool true) ∧
      applySymbol 1000 "<" [whole, infinity] = applySymbol 1000 "<" [double, infinity] := by
  intro whole double next infinity
  obtain ⟨order, hlt, heq, -⟩ :=
    (ordering_strict_total 1000).2.2.1 double next (.numbers (by decide +kernel) rfl)
  have hless : Number.less (.double (.ofInt 9007199254740992)) (.int 9007199254740993) = true := by
    decide +kernel
  have hnext : applySymbol 1000 "<" [double, next] = .ok (.bool true) :=
    congrArg (fun answer => Except.ok (Value.bool answer)) hless
  have hinfinity : applySymbol 1000 "<" [next, infinity] = .ok (.bool true) := rfl
  have hwhole : equal whole double = true := by decide +kernel
  exact ⟨⟨order, hlt, heq⟩, (ordering_strict_total 1000).2.2.2.1 _ _ _ hnext hinfinity,
    ((ordering_strict_total 1000).2.2.2.2 _ _ _ hwhole).1.1⟩

end Value

end Criteria
