import Mathlib.Data.List.TakeWhile
import Criteria.Proofs.Token

/-!
# Numerals

A numeral is a sign or none, digits, a point with digits or none, an exponent or none. It stands for
the integer that its sign and its first digits say.

* `IsSign`, `IsFraction`, `IsExponent`, `IsTail`, `IsNumeral`: the parts of a numeral;
* `IsNumeralChar`: the characters that a numeral is made of;
* `numeralParts?_eq_some_iff`: the reader finds the parts of every numeral, and no other text has any;
* `decimalValue`: the integer of a sign and digits. Zeros in front do not change it, and the digits
  that a number is written with give it back (`ofDigitChars_replicate_append`);
* `ofPiece_eq_int_iff`: the pieces that stand for integers. Those that are told apart before literals
  are read, among them `+` and `-`, are no numerals (`readNumeral?_of_reserved`).
-/

namespace Criteria

namespace Literal

variable {text sign digits tail exponent : List Char} {negative : Bool} {n : Int}
  {result : Except Numeral.TooLong Int}

/-! ### The parts of a numeral -/

/-- A sign or none. -/
def IsSign (sign : List Char) : Prop := sign = [] ∨ sign = ['+'] ∨ sign = ['-']

/-- Digits, or none. -/
def AreDigits (digits : List Char) : Prop := ∀ c ∈ digits, c.isDigit = true

/-- Nothing, or a point with digits or none behind it. -/
def IsFraction (part : List Char) : Prop :=
  part = [] ∨ ∃ digits, part = '.' :: digits ∧ AreDigits digits

/-- Nothing, or `e` or `E` with a sign or none and one or more digits behind it. -/
def IsExponent (part : List Char) : Prop :=
  part = [] ∨ ∃ mark sign digits, (mark = 'e' ∨ mark = 'E') ∧ IsSign sign ∧ digits ≠ [] ∧
    AreDigits digits ∧ part = mark :: (sign ++ digits)

/-- What may follow the first digits of a numeral. -/
def IsTail (tail : List Char) : Prop :=
  ∃ fraction exponent, tail = fraction ++ exponent ∧ IsFraction fraction ∧ IsExponent exponent

/-- A sign or none, one or more digits, and what may follow them. -/
structure IsNumeral (sign digits tail : List Char) : Prop where
  sign : IsSign sign
  ne_nil : digits ≠ []
  digits : AreDigits digits
  tail : IsTail tail

instance (sign : List Char) : Decidable (IsSign sign) := inferInstanceAs (Decidable (_ ∨ _ ∨ _))

instance (digits : List Char) : Decidable (AreDigits digits) :=
  List.decidableBAll (fun c : Char => c.isDigit = true) digits

/-! ### The characters of a numeral -/

/-- What a numeral is made of. -/
def IsNumeralChar (c : Char) : Prop :=
  c.isDigit = true ∨ c ∈ ['+', '-', '.', 'e', 'E']

instance (c : Char) : Decidable (IsNumeralChar c) := inferInstanceAs (Decidable (_ ∨ _))

theorem IsSign.isNumeralChar (h : IsSign sign) : ∀ c ∈ sign, IsNumeralChar c := by
  rcases h with rfl | rfl | rfl
  · simp
  · exact List.forall_mem_singleton.2 (by decide)
  · exact List.forall_mem_singleton.2 (by decide)

theorem AreDigits.isNumeralChar (h : AreDigits digits) : ∀ c ∈ digits, IsNumeralChar c :=
  fun c hc => .inl (h c hc)

theorem IsTail.isNumeralChar (h : IsTail tail) : ∀ c ∈ tail, IsNumeralChar c := by
  obtain ⟨fraction, exponent, rfl, hfraction, hexponent⟩ := h
  refine List.forall_mem_append.2 ⟨?_, ?_⟩
  · rcases hfraction with rfl | ⟨digits, rfl, hdigits⟩
    · simp
    · exact List.forall_mem_cons.2 ⟨by decide, hdigits.isNumeralChar⟩
  · rcases hexponent with rfl | ⟨mark, sign, digits, hmark, hsign, -, hdigits, rfl⟩
    · simp
    · refine List.forall_mem_cons.2 ⟨?_, List.forall_mem_append.2 ⟨?_, ?_⟩⟩
      · rcases hmark with rfl | rfl <;> decide
      · exact hsign.isNumeralChar
      · exact hdigits.isNumeralChar

/-! ### Reading a sign -/

/-- Characters that are none or begin with something else than a sign. -/
def IsUnsigned (rest : List Char) : Prop := ∀ c, rest.head? = some c → c ≠ '+' ∧ c ≠ '-'

theorem isUnsigned_of_digits (h : AreDigits digits) (hne : digits ≠ []) :
    IsUnsigned (digits ++ tail) := by
  obtain ⟨d, digits, rfl⟩ := List.exists_cons_of_ne_nil hne
  have hd : d.isDigit = true := h d List.mem_cons_self
  rintro c ⟨⟩
  constructor
  · rintro rfl
    cases hd
  · rintro rfl
    cases hd

theorem readSign_of_isUnsigned (h : IsUnsigned text) : Numeral.readSign text = (false, text) := by
  cases text with
  | nil => rfl
  | cons c rest =>
    obtain ⟨hplus, hminus⟩ := h c rfl
    unfold Numeral.readSign
    split
    case h_1 heq => exact absurd (List.cons.inj heq).1 hminus
    case h_2 heq => exact absurd (List.cons.inj heq).1 hplus
    case h_3 => rfl

/-- A sign is read off what begins with no other one. -/
theorem readSign_append (hsign : IsSign sign) (h : IsUnsigned text) :
    Numeral.readSign (sign ++ text) = (decide (sign = ['-']), text) := by
  rcases hsign with rfl | rfl | rfl
  · exact readSign_of_isUnsigned h
  · rfl
  · rfl

/-- Every text is a sign or none before what is read on. -/
theorem exists_sign (text : List Char) :
    ∃ sign, IsSign sign ∧ text = sign ++ (Numeral.readSign text).2 ∧
      (Numeral.readSign text).1 = decide (sign = ['-']) := by
  unfold Numeral.readSign
  split
  · exact ⟨['-'], by decide, rfl, rfl⟩
  · exact ⟨['+'], by decide, rfl, rfl⟩
  · exact ⟨[], by decide, rfl, rfl⟩

/-! ### Reading what follows the digits -/

/-- Characters that are none or begin with no digit. -/
def EndsDigits (rest : List Char) : Prop := ∀ c, rest.head? = some c → c.isDigit = false

theorem takeWhile_digits_append (hdigits : AreDigits digits) (h : EndsDigits tail) :
    (digits ++ tail).takeWhile Char.isDigit = digits ∧
      (digits ++ tail).dropWhile Char.isDigit = tail := by
  rw [List.takeWhile_append_of_pos hdigits, List.dropWhile_append_of_pos hdigits]
  cases tail with
  | nil => simp
  | cons c rest =>
    have hc : c.isDigit = false := h c rfl
    simp [hc]

theorem endsDigits_of_isExponent (h : IsExponent exponent) : EndsDigits exponent := by
  rintro c hc
  rcases h with rfl | ⟨mark, sign, digits, rfl | rfl, -, -, -, rfl⟩ <;> cases hc
  · rfl
  · rfl

theorem endsDigits_of_isTail (h : IsTail tail) : EndsDigits tail := by
  obtain ⟨fraction, exponent, rfl, rfl | ⟨digits, rfl, -⟩, hexponent⟩ := h
  · exact endsDigits_of_isExponent hexponent
  · rintro c ⟨⟩
    rfl

theorem isExponentPart_iff : isExponentPart text = true ↔ IsExponent text := by
  cases text with
  | nil => exact iff_of_true rfl (.inl rfl)
  | cons mark rest =>
    simp only [isExponentPart, Bool.and_eq_true, Bool.or_eq_true, beq_iff_eq, Bool.not_eq_true',
      List.isEmpty_eq_false_iff, List.all_eq_true]
    constructor
    · rintro ⟨⟨hmark, hne⟩, hdigits⟩
      obtain ⟨sign, hsign, hrest, -⟩ := exists_sign rest
      exact .inr ⟨mark, sign, _, hmark, hsign, hne, hdigits, congrArg (mark :: ·) hrest⟩
    · rintro (hnil | ⟨_, sign, digits, hmark, hsign, hne, hdigits, heq⟩)
      · cases hnil
      · obtain ⟨rfl, rfl⟩ := List.cons.inj heq
        have hunsigned : IsUnsigned (digits ++ []) := isUnsigned_of_digits hdigits hne
        rw [List.append_nil] at hunsigned
        rw [readSign_append hsign hunsigned]
        exact ⟨⟨hmark, hne⟩, hdigits⟩

/-- The tail of a numeral is read as one whether it begins with a point or not. -/
theorem isNumeralTail_iff : isNumeralTail tail = true ↔ IsTail tail := by
  constructor
  · intro h
    unfold isNumeralTail at h
    split at h
    case h_1 rest =>
      refine ⟨'.' :: rest.takeWhile Char.isDigit, rest.dropWhile Char.isDigit, ?_, .inr ?_,
        isExponentPart_iff.1 h⟩
      · rw [List.cons_append, List.takeWhile_append_dropWhile]
      · exact ⟨_, rfl, fun c hc => List.mem_takeWhile_imp hc⟩
    case h_2 => exact ⟨[], tail, rfl, .inl rfl, isExponentPart_iff.1 h⟩
  · rintro ⟨fraction, exponent, rfl, hfraction, hexponent⟩
    have hread := isExponentPart_iff.2 hexponent
    rcases hfraction with rfl | ⟨digits, rfl, hdigits⟩
    · -- an exponent does not begin with a point
      rcases hexponent with rfl | ⟨mark, sign, digits, rfl | rfl, -, -, -, rfl⟩ <;> exact hread
    · rw [List.cons_append, isNumeralTail,
        (takeWhile_digits_append hdigits (endsDigits_of_isExponent hexponent)).2]
      exact hread

/-! ### Reading a numeral -/

/-- **The reader finds the parts of numerals, and no others.** -/
theorem numeralParts?_eq_some_iff :
    numeralParts? text = some (negative, digits) ↔
      ∃ sign tail, text = sign ++ (digits ++ tail) ∧ IsNumeral sign digits tail ∧
        negative = decide (sign = ['-']) := by
  constructor
  · intro h
    obtain ⟨sign, hsign, htext, hnegative⟩ := exists_sign text
    unfold numeralParts? at h
    generalize Numeral.readSign text = read at h htext hnegative
    obtain ⟨found, body⟩ := read
    simp only [Option.ite_none_right_eq_some, Bool.and_eq_true, Bool.not_eq_true',
      List.isEmpty_eq_false_iff, Option.some.injEq, Prod.mk.injEq] at h htext hnegative
    obtain ⟨⟨hne, htail⟩, rfl, rfl⟩ := h
    refine ⟨sign, body.dropWhile Char.isDigit, ?_, ⟨hsign, hne, ?_, isNumeralTail_iff.1 htail⟩,
      hnegative⟩
    · rw [List.takeWhile_append_dropWhile, htext]
    · exact fun c hc => List.mem_takeWhile_imp hc
  · rintro ⟨sign, tail, rfl, ⟨hsign, hne, hdigits, htail⟩, rfl⟩
    obtain ⟨htake, hdrop⟩ := takeWhile_digits_append hdigits (endsDigits_of_isTail htail)
    have hunsigned : IsUnsigned (digits ++ tail) := isUnsigned_of_digits hdigits hne
    have hread := readSign_append hsign hunsigned
    have hfound : (!digits.isEmpty) = true := by simpa using hne
    simp only [numeralParts?, hread, htake, hdrop, hfound, isNumeralTail_iff.2 htail]
    rfl

/-- The integer of a sign and decimal digits. -/
def decimalValue (sign digits : List Char) : Int :=
  if sign = ['-'] then -(Nat.ofDigitChars 10 digits 0 : Int) else Nat.ofDigitChars 10 digits 0

theorem valueOf_eq (digits : List Char) : Numeral.valueOf digits = Nat.ofDigitChars 10 digits 0 :=
  List.foldl_map

theorem signed_valueOf (sign digits : List Char) :
    Double.signed (decide (sign = ['-'])) (Numeral.valueOf digits) = decimalValue sign digits := by
  rw [valueOf_eq, Double.signed, decimalValue]
  by_cases hsign : sign = ['-'] <;> simp [hsign]

/-- The signs that an integer is written with: a minus if it is negative, else a plus or none. -/
def IsSignOf (n : Int) (sign : List Char) : Prop :=
  (n < 0 ∧ sign = ['-']) ∨ (0 ≤ n ∧ (sign = [] ∨ sign = ['+']))

instance (n : Int) (sign : List Char) : Decidable (IsSignOf n sign) :=
  inferInstanceAs (Decidable (_ ∨ _))

theorem IsSignOf.isSign (h : IsSignOf n sign) : IsSign sign := by
  rcases h with ⟨-, rfl⟩ | ⟨-, rfl | rfl⟩ <;> decide

/-- A sign of an integer and the digits of its size make up the integer. -/
theorem IsSignOf.decimalValue_eq (h : IsSignOf n sign)
    (hdigits : Nat.ofDigitChars 10 digits 0 = n.natAbs) : decimalValue sign digits = n := by
  rw [decimalValue, hdigits]
  rcases h with ⟨hneg, rfl⟩ | ⟨hnonneg, rfl | rfl⟩
  · rw [if_pos rfl]
    omega
  · rw [if_neg (by decide)]
    omega
  · rw [if_neg (by decide)]
    omega

/-- Zeros in front of the digits of a number change nothing. -/
theorem ofDigitChars_replicate_append (zeros n : Nat) :
    Nat.ofDigitChars 10 (List.replicate zeros '0' ++ Nat.toDigits 10 n) 0 = n := by
  have hzeros : Nat.ofDigitChars 10 (List.replicate zeros '0') 0 = 0 := by
    induction zeros with
    | zero => rfl
    | succ zeros ih => exact ih
  rw [Nat.ofDigitChars_append, hzeros, Nat.ofDigitChars_toDigits (by decide) (by decide)]

theorem areDigits_replicate_append (zeros n : Nat) :
    AreDigits (List.replicate zeros '0' ++ Nat.toDigits 10 n) := by
  intro c hc
  rcases List.mem_append.1 hc with hzero | hdigit
  · rw [(List.mem_replicate.1 hzero).2]
    rfl
  · exact Nat.isDigit_of_mem_toDigits (by decide) (by decide) hdigit

theorem readNumeral?_eq_ok_iff :
    readNumeral? text = some (.ok n) ↔
      ∃ sign digits tail, text = sign ++ (digits ++ tail) ∧ IsNumeral sign digits tail ∧
        digits.length ≤ Numeral.digitLimit ∧ n = decimalValue sign digits := by
  have hdigits : ∀ (negative : Bool) (digits : List Char),
      (Numeral.readDigits digits).map (fun m => Double.signed negative m) = .ok n ↔
        digits.length ≤ Numeral.digitLimit ∧ n = Double.signed negative (Numeral.valueOf digits) := by
    intro negative digits
    unfold Numeral.readDigits
    split
    case isTrue hlong => exact iff_of_false (fun h => nomatch h) fun h => by omega
    case isFalse hshort =>
      have hlength : digits.length ≤ Numeral.digitLimit := by omega
      simp [Except.map, hlength, eq_comm]
  rw [readNumeral?, Option.map_eq_some_iff]
  constructor
  · rintro ⟨⟨negative, digits⟩, hparts, hread⟩
    obtain ⟨sign, tail, htext, hnumeral, rfl⟩ := numeralParts?_eq_some_iff.1 hparts
    obtain ⟨hlength, hn⟩ := (hdigits _ _).1 hread
    exact ⟨sign, digits, tail, htext, hnumeral, hlength, hn.trans (signed_valueOf sign digits)⟩
  · rintro ⟨sign, digits, tail, htext, hnumeral, hlength, hn⟩
    refine ⟨(decide (sign = ['-']), digits), ?_, (hdigits _ _).2 ⟨hlength, ?_⟩⟩
    · exact numeralParts?_eq_some_iff.2 ⟨sign, tail, htext, hnumeral, rfl⟩
    · exact hn.trans (signed_valueOf sign digits).symm

theorem isNumeralChar_of_readNumeral? (h : readNumeral? text = some result) :
    text ≠ [] ∧ ∀ c ∈ text, IsNumeralChar c := by
  obtain ⟨⟨negative, digits⟩, hparts, -⟩ := Option.map_eq_some_iff.1 h
  obtain ⟨sign, tail, rfl, hnumeral, -⟩ := numeralParts?_eq_some_iff.1 hparts
  refine ⟨?_, ?_⟩
  · exact List.append_ne_nil_of_right_ne_nil _ (List.append_ne_nil_of_left_ne_nil hnumeral.ne_nil _)
  · refine List.forall_mem_append.2 ⟨hnumeral.sign.isNumeralChar, List.forall_mem_append.2 ?_⟩
    exact ⟨hnumeral.digits.isNumeralChar, hnumeral.tail.isNumeralChar⟩

/-! ### Pieces that are numerals -/

theorem readNumeral?_of_reserved : ∀ s ∈ Token.reserved, readNumeral? s.toList = none := by decide

theorem not_reserved (h : readNumeral? text = some result) :
    String.ofList text ∉ Token.reserved := by
  intro hmem
  have hnone := readNumeral?_of_reserved _ hmem
  rw [String.toList_ofList, h] at hnone
  cases hnone

/-- Numerals are read before quoted literals. -/
theorem read?_of_readNumeral? (h : readNumeral? text = some result) :
    read? text = some (result.map Value.int) := by
  rw [read?, Token.lookup_words_of_not_reserved (not_reserved h), h]

/-- Only numerals are read as integers. -/
theorem read?_eq_int_iff :
    read? text = some (.ok (.int n)) ↔ readNumeral? text = some (.ok n) := by
  constructor
  · intro h
    unfold read? at h
    split at h
    case h_1 value hword =>
      cases h
      exact absurd rfl (kind_of_lookup_words hword).1
    case h_2 result _ hresult =>
      rw [hresult]
      cases result with
      | error numeral => cases h
      | ok m =>
        cases h
        rfl
    case h_3 => cases h
    case h_4 => cases h
  · intro h
    rw [read?_of_readNumeral? h]
    rfl

end Literal

open Literal Outcome

variable {piece : List Char} {index n : Int} {result : Except Numeral.TooLong Int}

namespace Token

/-- A numeral is the integer that it is read as, unless it has too many digits. -/
theorem Item.ofPiece_of_readNumeral? (h : readNumeral? piece = some result) :
    ofPiece piece = (result.map fun n => .literal (.int n)).mapError Fault.numeralTooLong := by
  have hsymbol : String.ofList piece ∉ symbols := fun hmem =>
    not_reserved h (List.mem_append_left _ hmem)
  rw [ofPiece_of_not_symbol hsymbol, read?_of_readNumeral? h]
  cases result <;> rfl

theorem Item.ofPiece_eq_int_iff :
    ofPiece piece = .ok (.literal (.int n)) ↔ readNumeral? piece = some (.ok n) := by
  constructor
  · exact fun h => read?_eq_int_iff.1 (read?_of_ofPiece h)
  · exact fun h => ofPiece_of_readNumeral? h

theorem classify_eq_int_iff :
    classify piece index = .ok ⟨.literal (.int n), String.ofList piece, index⟩ ↔
      readNumeral? piece = some (.ok n) := by
  rw [← Item.ofPiece_eq_int_iff]
  constructor
  · exact ofPiece_of_classify
  · intro h
    rw [classify, h]
    rfl

/-- **Integer tokens are the numerals.** A piece is classified as an integer exactly if it is a
numeral with at most `digitLimit` first digits, and the integer is the one that its sign and these
digits say. So an integer that can be written with so few digits is read back from its digits with
its sign, with zeros in front, and with any tail. -/
theorem classify_numeral :
    (∀ (piece : List Char) (index n : Int),
      classify piece index = .ok ⟨.literal (.int n), String.ofList piece, index⟩ ↔
        ∃ sign digits tail, piece = sign ++ (digits ++ tail) ∧ IsNumeral sign digits tail ∧
          digits.length ≤ Numeral.digitLimit ∧ n = decimalValue sign digits) ∧
    ∀ (n index : Int) (sign tail : List Char) (zeros : Nat),
      IsSignOf n sign → IsTail tail →
      zeros + (Nat.toDigits 10 n.natAbs).length ≤ Numeral.digitLimit →
      let piece := sign ++ (List.replicate zeros '0' ++ Nat.toDigits 10 n.natAbs ++ tail)
      classify piece index = .ok ⟨.literal (.int n), String.ofList piece, index⟩ := by
  refine ⟨fun piece index n => classify_eq_int_iff.trans readNumeral?_eq_ok_iff, ?_⟩
  intro n index sign tail zeros hsign htail hlength piece
  refine classify_eq_int_iff.2 (readNumeral?_eq_ok_iff.2 ⟨sign, _, tail, rfl, ?_, ?_, ?_⟩)
  · refine ⟨hsign.isSign, ?_, areDigits_replicate_append zeros n.natAbs, htail⟩
    exact List.append_ne_nil_of_right_ne_nil _ Nat.toDigits_ne_nil
  · rwa [List.length_append, List.length_replicate]
  · exact (hsign.decimalValue_eq (ofDigitChars_replicate_append zeros n.natAbs)).symm

/-- `+007.5e-1` is a numeral for seven, of which nothing behind the point counts. -/
theorem classify_numeral_tail :
    IsSignOf 7 ['+'] ∧ IsTail ".5e-1".toList ∧ 2 + (Nat.toDigits 10 7).length ≤ Numeral.digitLimit ∧
      classify "+007.5e-1".toList 3 = .ok ⟨.literal (.int 7), "+007.5e-1", 3⟩ := by
  have hsign : IsSignOf 7 ['+'] := by decide
  have htail : IsTail ".5e-1".toList :=
    ⟨['.', '5'], ['e', '-', '1'], rfl, .inr ⟨['5'], rfl, by decide⟩,
      .inr ⟨'e', ['-'], ['1'], .inl rfl, by decide, by decide, by decide, rfl⟩⟩
  have hlength : 2 + (Nat.toDigits 10 7).length ≤ Numeral.digitLimit := by decide
  exact ⟨hsign, htail, hlength, classify_numeral.2 7 3 ['+'] ".5e-1".toList 2 hsign htail hlength⟩

end Token

end Criteria
