import Mathlib.Data.List.Chain
import Criteria.Proofs.Pieces

/-!
# Pieces and the blanks between them

Cutting an expression loses nothing but the blanks, and pieces that are written with blanks between
them are found again.

* `IsPiece`: what can be a piece;
* `spread`: pieces, each with the blanks behind it, as one text. A blank has to stand between two
  pieces only if they would be read as one (`NeedsBlank`);
* `pieces_spread`: such a text has these pieces and no others.
-/

namespace Criteria

variable {c : Char} {text piece word blanks : List Char} {part next : List Char × List Char}
  {parts : List (List Char × List Char)}

/-- The pieces that are a single character wherever they stand. -/
def IsDelimiter (piece : List Char) : Prop := piece = ['('] ∨ piece = [')'] ∨ piece = ['!']

instance (piece : List Char) : Decidable (IsDelimiter piece) :=
  inferInstanceAs (Decidable (_ ∨ _ ∨ _))

/-- What can be a piece: a delimiter, or characters without a parenthesis in which `=` comes right
behind every `!`. -/
structure IsPiece (piece : List Char) : Prop where
  ne_nil : piece ≠ []
  not_blank : ∀ c ∈ piece, isBlank c = false
  delimiter_or : IsDelimiter piece ∨
    ('(' ∉ piece ∧ ')' ∉ piece ∧
      ∀ front back, piece = front ++ '!' :: back → back.head? = some '=')

/-! ### Words -/

theorem endsPiece_eq_false_iff {rest : List Char} :
    endsPiece c rest = false ↔
      isBlank c = false ∧ c ≠ '(' ∧ c ≠ ')' ∧ (c = '!' → rest.head? = some '=') := by
  rw [← Bool.not_eq_true, endsPiece_iff]
  simp only [not_or, not_and, not_not, Bool.not_eq_true]
  tauto

/-- Characters stay together if none is a blank or a parenthesis and `=` comes behind every `!`. -/
theorem isWord_iff :
    IsWord word ↔ (∀ c ∈ word, isBlank c = false) ∧ '(' ∉ word ∧ ')' ∉ word ∧
      ∀ front back, word = front ++ '!' :: back → back.head? = some '=' := by
  induction word with
  | nil => simp [IsWord]
  | cons c word ih =>
    rw [IsWord, ih, endsPiece_eq_false_iff]
    constructor
    · rintro ⟨⟨hblank, hopening, hclosing, hmark⟩, hblanks, hopenings, hclosings, hmarks⟩
      refine ⟨List.forall_mem_cons.2 ⟨hblank, hblanks⟩, ?_, ?_, ?_⟩
      · exact List.not_mem_cons_of_ne_of_not_mem hopening.symm hopenings
      · exact List.not_mem_cons_of_ne_of_not_mem hclosing.symm hclosings
      · rintro (_ | ⟨d, front⟩) back heq
        · obtain ⟨rfl, rfl⟩ := List.cons.inj heq
          exact hmark rfl
        · exact hmarks front back (List.cons.inj heq).2
    · rintro ⟨hblanks, hopenings, hclosings, hmarks⟩
      obtain ⟨hblank, hblanks⟩ := List.forall_mem_cons.1 hblanks
      refine ⟨⟨hblank, ?_, ?_, ?_⟩, hblanks, List.not_mem_of_not_mem_cons hopenings,
        List.not_mem_of_not_mem_cons hclosings, ?_⟩
      · exact (List.ne_of_not_mem_cons hopenings).symm
      · exact (List.ne_of_not_mem_cons hclosings).symm
      · rintro rfl
        exact hmarks [] word rfl
      · rintro front back rfl
        exact hmarks (c :: front) back rfl

/-- Characters that never end a piece stay together. -/
theorem isWord_of_forall (h : ∀ c ∈ word, isBlank c = false ∧ c ≠ '(' ∧ c ≠ ')' ∧ c ≠ '!') :
    IsWord word := by
  induction word with
  | nil => trivial
  | cons c word ih =>
    obtain ⟨⟨hblank, hopening, hclosing, hmark⟩, hword⟩ := List.forall_mem_cons.1 h
    refine ⟨endsPiece_eq_false_iff.2 ⟨hblank, hopening, hclosing, ?_⟩, ih hword⟩
    exact fun hc => absurd hc hmark

theorem not_blank_of_isDelimiter (h : IsDelimiter piece) : ∀ c ∈ piece, isBlank c = false := by
  rcases h with rfl | rfl | rfl <;> exact List.forall_mem_singleton.2 rfl

/-- A piece is a delimiter or a word. -/
theorem isPiece_iff : IsPiece piece ↔ IsDelimiter piece ∨ (piece ≠ [] ∧ IsWord piece) := by
  rw [isWord_iff]
  constructor
  · rintro ⟨hne, hblank, hdelimiter | hword⟩
    · exact .inl hdelimiter
    · exact .inr ⟨hne, hblank, hword⟩
  · rintro (hdelimiter | ⟨hne, hblank, hword⟩)
    · refine ⟨?_, not_blank_of_isDelimiter hdelimiter, .inl hdelimiter⟩
      rcases hdelimiter with rfl | rfl | rfl <;> simp
    · exact ⟨hne, hblank, .inr hword⟩

/-! ### Cutting loses blanks only -/

theorem isDelimiter_of_standsAlone {rest : List Char} (h : standsAlone c rest = true) :
    IsDelimiter [c] := by
  rcases standsAlone_iff.1 h with rfl | rfl | ⟨rfl, -⟩ <;> decide

theorem isPiece_of_mem_pieces (h : piece ∈ pieces text) : IsPiece piece := by
  induction cut text with
  | nil => cases h
  | @ending c rest hc _ ih =>
    rcases Bool.or_eq_true_iff.1 hc with halone | hblank
    · rw [pieces_cons_of_standsAlone halone] at h
      rcases List.mem_cons.1 h with rfl | hrest
      · exact isPiece_iff.2 (.inl (isDelimiter_of_standsAlone halone))
      · exact ih hrest
    · rw [pieces_cons_of_isBlank hblank] at h
      exact ih h
  | @word word rest hne hword hbreaks _ ih =>
    rw [pieces_word_append hword hne hbreaks] at h
    rcases List.mem_cons.1 h with rfl | hrest
    · exact isPiece_iff.2 (.inr ⟨hne, hword⟩)
    · exact ih hrest

theorem flatten_pieces (text : List Char) :
    (pieces text).flatten = text.filter fun c => !isBlank c := by
  induction cut text with
  | nil => rfl
  | @ending c rest hc _ ih =>
    rcases Bool.or_eq_true_iff.1 hc with halone | hblank
    · have hblank := not_blank_of_isDelimiter (isDelimiter_of_standsAlone halone) c
        List.mem_cons_self
      rw [pieces_cons_of_standsAlone halone, List.flatten_cons, ih,
        List.filter_cons_of_pos (by simp [hblank]), List.singleton_append]
    · rw [pieces_cons_of_isBlank hblank, ih, List.filter_cons_of_neg (by simp [hblank])]
  | @word word rest hne hword hbreaks _ ih =>
    have hkept : (word.filter fun c => !isBlank c) = word :=
      List.filter_eq_self.2 fun c hc => by simp [(isWord_iff.1 hword).1 c hc]
    rw [pieces_word_append hword hne hbreaks, List.flatten_cons, ih, List.filter_append, hkept]

/-! ### Pieces with blanks between them -/

/-- Pieces, each with what stands behind it, as one text. -/
def spread (parts : List (List Char × List Char)) : List Char :=
  parts.flatMap fun part => part.1 ++ part.2

/-- Whether two pieces would be read as one, or in another way, without a blank between them. -/
def NeedsBlank (first second : List Char) : Prop :=
  (¬IsDelimiter first ∧ ¬IsDelimiter second) ∨ (first = ['!'] ∧ second.head? = some '=')

instance (first second : List Char) : Decidable (NeedsBlank first second) :=
  inferInstanceAs (Decidable (_ ∨ _))

/-- Pieces, each with blanks behind it, and with at least one where it is needed. -/
structure AreSpaced (parts : List (List Char × List Char)) : Prop where
  isPiece : ∀ part ∈ parts, IsPiece part.1
  isBlank : ∀ part ∈ parts, ∀ c ∈ part.2, isBlank c = true
  apart : parts.IsChain fun part next => NeedsBlank part.1 next.1 → part.2 ≠ []

theorem spread_cons : spread (part :: parts) = part.1 ++ (part.2 ++ spread parts) := by
  rw [spread, List.flatMap_cons, List.append_assoc]
  rfl

theorem AreSpaced.tail (h : AreSpaced (part :: parts)) : AreSpaced parts where
  isPiece := fun other hother => h.isPiece other (List.mem_cons_of_mem _ hother)
  isBlank := fun other hother => h.isBlank other (List.mem_cons_of_mem _ hother)
  apart := h.apart.tail

theorem pieces_blanks_append (h : ∀ c ∈ blanks, isBlank c = true) :
    pieces (blanks ++ text) = pieces text := by
  induction blanks with
  | nil => rfl
  | cons c blanks ih =>
    obtain ⟨hc, hblanks⟩ := List.forall_mem_cons.1 h
    rw [List.cons_append, pieces_cons_of_isBlank hc, ih hblanks]

/-- What stands behind a piece: nothing, a blank, or another piece that needs none. -/
theorem AreSpaced.after (h : AreSpaced (part :: parts)) :
    part.2 ++ spread parts = [] ∨
      (∃ c rest, part.2 ++ spread parts = c :: rest ∧ Criteria.isBlank c = true) ∨
      ∃ next others, part.2 ++ spread parts = spread (next :: others) ∧
        AreSpaced (next :: others) ∧ ¬NeedsBlank part.1 next.1 := by
  obtain ⟨piece, blanks⟩ := part
  cases blanks with
  | cons c blanks =>
    have hblank := h.isBlank _ List.mem_cons_self c List.mem_cons_self
    exact .inr (.inl ⟨c, blanks ++ spread parts, rfl, hblank⟩)
  | nil =>
    cases parts with
    | nil => exact .inl rfl
    | cons next others =>
      have hneeds : ¬NeedsBlank piece next.1 := fun hneeds =>
        (List.isChain_cons_cons.1 h.apart).1 hneeds rfl
      exact .inr (.inr ⟨next, others, rfl, h.tail, hneeds⟩)

/-- A delimiter is a piece of its own in front of what stands behind it. -/
theorem AreSpaced.standsAlone (h : AreSpaced (part :: parts)) (hdelimiter : IsDelimiter part.1) :
    ∃ c, part.1 = [c] ∧ standsAlone c (part.2 ++ spread parts) = true := by
  rcases hdelimiter with hpart | hpart | hpart
  · exact ⟨'(', hpart, rfl⟩
  · exact ⟨')', hpart, rfl⟩
  · refine ⟨'!', hpart, ?_⟩
    have hhead : (part.2 ++ spread parts).head? ≠ some '=' := by
      rcases h.after with hnil | ⟨c, rest, hcons, hblank⟩ | ⟨next, others, hnext, hspaced, hneeds⟩
      · simp [hnil]
      · rw [hcons]
        rintro ⟨⟩
        cases hblank
      · obtain ⟨d, piece, hpiece⟩ :=
          List.exists_cons_of_ne_nil (hspaced.isPiece next List.mem_cons_self).ne_nil
        rw [hnext, spread_cons, hpiece]
        exact fun heq => hneeds (.inr ⟨hpart, by rw [hpiece]; exact heq⟩)
    simpa [Criteria.standsAlone] using hhead

/-- A word ends in front of what stands behind it. -/
theorem AreSpaced.breaks (h : AreSpaced (part :: parts)) (hdelimiter : ¬IsDelimiter part.1) :
    Breaks (part.2 ++ spread parts) := by
  rcases h.after with hnil | ⟨c, rest, hcons, hblank⟩ | ⟨next, others, hnext, hspaced, hneeds⟩
  · rw [hnil]
    trivial
  · rw [hcons]
    exact Bool.or_eq_true_iff.2 (.inr hblank)
  · have hnextDelimiter : IsDelimiter next.1 := by
      by_contra hword
      exact hneeds (.inl ⟨hdelimiter, hword⟩)
    obtain ⟨c, hc, halone⟩ := hspaced.standsAlone hnextDelimiter
    rw [hnext, spread_cons, hc]
    exact Bool.or_eq_true_iff.2 (.inl halone)

/-- Pieces with blanks between them are found again. -/
theorem pieces_spread (h : AreSpaced parts) : pieces (spread parts) = parts.map Prod.fst := by
  induction parts with
  | nil => rfl
  | cons part parts ih =>
    have hrest : pieces (part.2 ++ spread parts) = parts.map Prod.fst := by
      rw [pieces_blanks_append (h.isBlank part List.mem_cons_self), ih h.tail]
    rw [spread_cons, List.map_cons]
    by_cases hdelimiter : IsDelimiter part.1
    · obtain ⟨c, hc, halone⟩ := h.standsAlone hdelimiter
      rw [hc, List.singleton_append, pieces_cons_of_standsAlone halone, hrest]
    · have hpiece := h.isPiece part List.mem_cons_self
      have hword := (isPiece_iff.1 hpiece).resolve_left hdelimiter
      rw [pieces_word_append hword.2 hword.1 (h.breaks hdelimiter), hrest]

/-- **Cutting and writing pieces.** What an expression is cut into are pieces, which make up the
expression without its blanks. Pieces that are written one behind the other, with blanks where they
are needed and any others, are what the text is cut into. -/
theorem pieces_exact :
    (∀ text, (∀ piece ∈ pieces text, IsPiece piece) ∧
      (pieces text).flatten = text.filter fun c => !isBlank c) ∧
    ∀ (lead : List Char) (parts : List (List Char × List Char)),
      (∀ c ∈ lead, isBlank c = true) →
      (∀ part ∈ parts, IsPiece part.1 ∧ ∀ c ∈ part.2, isBlank c = true) →
      (parts.IsChain fun part next => NeedsBlank part.1 next.1 → part.2 ≠ []) →
      pieces (lead ++ spread parts) = parts.map Prod.fst := by
  refine ⟨fun text => ⟨fun piece => isPiece_of_mem_pieces, flatten_pieces text⟩, ?_⟩
  intro lead parts hlead hparts hapart
  have hspaced : AreSpaced parts :=
    ⟨fun part hpart => (hparts part hpart).1, fun part hpart => (hparts part hpart).2, hapart⟩
  rw [pieces_blanks_append hlead, pieces_spread hspaced]

/-- In ` a!(!!=` the last mark belongs to the piece `!=`, and the others are pieces of their own. -/
theorem pieces_exact_marks :
    let parts : List (List Char × List Char) :=
      [(['a'], []), (['!'], []), (['('], []), (['!'], []), (['!', '='], ['\t'])]
    (∀ c ∈ [' '], isBlank c = true) ∧
      (∀ part ∈ parts, IsPiece part.1 ∧ ∀ c ∈ part.2, isBlank c = true) ∧
      (parts.IsChain fun part next => NeedsBlank part.1 next.1 → part.2 ≠ []) ∧
      [' '] ++ spread parts = " a!(!!=\t".toList ∧
      pieces ([' '] ++ spread parts) = [['a'], ['!'], ['('], ['!'], ['!', '=']] := by
  intro parts
  have hlead : ∀ c ∈ [' '], isBlank c = true := List.forall_mem_singleton.2 rfl
  have hwords : ∀ piece ∈ parts.map Prod.fst, IsPiece piece := by
    have hcases : ∀ piece ∈ parts.map Prod.fst,
        IsDelimiter piece ∨ piece = ['a'] ∨ piece = ['!', '='] := by decide
    intro piece hpiece
    rcases hcases piece hpiece with hdelimiter | rfl | rfl
    · exact isPiece_iff.2 (.inl hdelimiter)
    · exact isPiece_iff.2 (.inr ⟨by decide, rfl, trivial⟩)
    · exact isPiece_iff.2 (.inr ⟨by decide, rfl, rfl, trivial⟩)
  have hblanks : ∀ part ∈ parts, ∀ c ∈ part.2, isBlank c = true := by
    have htab : isBlank '\t' = true := rfl
    simp [parts, htab]
  have hparts : ∀ part ∈ parts, IsPiece part.1 ∧ ∀ c ∈ part.2, isBlank c = true :=
    fun part hpart => ⟨hwords part.1 (List.mem_map_of_mem hpart), hblanks part hpart⟩
  have hapart : parts.IsChain fun part next => NeedsBlank part.1 next.1 → part.2 ≠ [] := by decide
  exact ⟨hlead, hparts, hapart, rfl, pieces_exact.2 [' '] parts hlead hparts hapart⟩

end Criteria
