import Criteria.Token.Pieces

/-!
# How an expression is cut

A character ends a piece if it is a blank or a piece of its own. Whether it does depends on what
follows it only for `!`, and there only on a following `=`, which itself never ends a piece. So a text
can be cut wherever a piece ends, and both parts are cut by themselves (`pieces_append`).

* `IsWord`: characters that stay together, since none of them ends a piece;
* `Cut`: every text is nothing, or a character that ends a piece before a text, or a word before a
  text that is empty or begins with such a character (`cut`). Proofs about pieces go by induction on
  this.
-/

namespace Criteria

variable {c : Char} {text front back rest other word reversed : List Char}
  {words : List (List Char)}

/-- Whether a character ends a piece in front of the characters that follow it. -/
def endsPiece (c : Char) (rest : List Char) : Bool := standsAlone c rest || isBlank c

/-- A text that is empty or begins with a character that ends a piece. -/
def Breaks : List Char → Prop
  | [] => True
  | c :: rest => endsPiece c rest = true

/-- Characters none of which ends a piece. -/
def IsWord : List Char → Prop
  | [] => True
  | c :: rest => endsPiece c rest = false ∧ IsWord rest

theorem standsAlone_iff :
    standsAlone c rest = true ↔ c = '(' ∨ c = ')' ∨ (c = '!' ∧ rest.head? ≠ some '=') := by
  simp [standsAlone, or_assoc]

theorem endsPiece_iff :
    endsPiece c rest = true ↔
      c = '(' ∨ c = ')' ∨ (c = '!' ∧ rest.head? ≠ some '=') ∨ isBlank c = true := by
  simp [endsPiece, standsAlone, or_assoc]

/-- The end of a word is a word. -/
theorem IsWord.of_append (h : IsWord (front ++ back)) : IsWord back := by
  induction front with
  | nil => exact h
  | cons c front ih => exact ih h.2

/-! ### What follows -/

/-- Of what follows a character it only matters whether it begins with `=`. -/
theorem standsAlone_congr (h : rest.head? = some '=' ↔ other.head? = some '=') :
    standsAlone c rest = standsAlone c other := by
  have hne : (rest.head? != some '=') = (other.head? != some '=') := by
    rw [Bool.eq_iff_iff, bne_iff_ne, bne_iff_ne]
    exact not_congr h
  rw [standsAlone, standsAlone, hne]

theorem endsPiece_congr (h : rest.head? = some '=' ↔ other.head? = some '=') :
    endsPiece c rest = endsPiece c other := by
  rw [endsPiece, endsPiece, standsAlone_congr h]

theorem Breaks.head?_ne (h : Breaks back) : back.head? ≠ some '=' := by
  cases back with
  | nil => simp
  | cons c rest =>
    intro hc
    cases Option.some.inj hc
    cases h

/-- Nor does it matter what comes where a piece ends anyway. -/
theorem standsAlone_append (h : Breaks back) :
    standsAlone c (front ++ back) = standsAlone c front := by
  cases front with
  | nil => exact standsAlone_congr (iff_of_false h.head?_ne (by simp))
  | cons d front => exact standsAlone_congr Iff.rfl

theorem endsPiece_append (h : Breaks back) : endsPiece c (front ++ back) = endsPiece c front := by
  rw [endsPiece, endsPiece, standsAlone_append h]

theorem standsAlone_of_isBlank (h : isBlank c = true) : standsAlone c rest = false := by
  cases hc : standsAlone c rest with
  | false => rfl
  | true => rcases standsAlone_iff.1 hc with rfl | rfl | ⟨rfl, -⟩ <;> cases h

/-! ### Cutting where a piece ends -/

theorem closeWord_append (others : List (List Char)) :
    closeWord reversed words ++ others = closeWord reversed (words ++ others) := by
  cases reversed <;> rfl

theorem pieces_cons_of_standsAlone (h : standsAlone c rest = true) :
    pieces (c :: rest) = [c] :: pieces rest := by
  rw [pieces, piecesAfter, if_pos h]
  rfl

theorem pieces_cons_of_isBlank (h : isBlank c = true) : pieces (c :: rest) = pieces rest := by
  rw [pieces, piecesAfter, if_neg (Bool.eq_false_iff.1 (standsAlone_of_isBlank h)), if_pos h]
  rfl

/-- A word that has been read so far ends where a piece ends. -/
theorem piecesAfter_of_breaks (h : Breaks back) :
    piecesAfter reversed back = closeWord reversed (pieces back) := by
  cases back with
  | nil => rfl
  | cons c rest =>
    rcases Bool.or_eq_true_iff.1 h with halone | hblank
    · rw [piecesAfter, if_pos halone, pieces_cons_of_standsAlone halone]
      rfl
    · rw [piecesAfter, if_neg (Bool.eq_false_iff.1 (standsAlone_of_isBlank hblank)), if_pos hblank,
        pieces_cons_of_isBlank hblank]
      rfl

theorem piecesAfter_append (h : Breaks back) :
    piecesAfter reversed (front ++ back) = piecesAfter reversed front ++ pieces back := by
  induction front generalizing reversed with
  | nil =>
    rw [List.nil_append, piecesAfter_of_breaks h, piecesAfter, closeWord_append, List.nil_append]
  | cons c front ih =>
    rw [List.cons_append, piecesAfter, piecesAfter, standsAlone_append h]
    split
    · rw [ih, closeWord_append, List.cons_append]
    split
    · rw [ih, closeWord_append]
    · exact ih

/-- **A text can be cut wherever a piece ends.** -/
theorem pieces_append (h : Breaks back) : pieces (front ++ back) = pieces front ++ pieces back :=
  piecesAfter_append h

/-! ### Words -/

theorem piecesAfter_of_isWord (h : IsWord word) :
    piecesAfter reversed word = closeWord (word.reverse ++ reversed) [] := by
  induction word generalizing reversed with
  | nil => rfl
  | cons c word ih =>
    obtain ⟨halone, hblank⟩ := Bool.or_eq_false_iff.1 h.1
    rw [piecesAfter, if_neg (Bool.eq_false_iff.1 halone), if_neg (Bool.eq_false_iff.1 hblank), ih h.2,
      List.reverse_cons, List.append_assoc]
    rfl

/-- A word is one piece. -/
theorem pieces_of_isWord (h : IsWord word) (hne : word ≠ []) : pieces word = [word] := by
  have hreverse : word.reverse.isEmpty = false := by simpa using hne
  rw [pieces, piecesAfter_of_isWord h, List.append_nil, closeWord, hreverse, List.reverse_reverse]
  rfl

/-- A word is the first piece of a text that goes on where a piece ends. -/
theorem pieces_word_append (h : IsWord word) (hne : word ≠ []) (hbreaks : Breaks rest) :
    pieces (word ++ rest) = word :: pieces rest := by
  rw [pieces_append hbreaks, pieces_of_isWord h hne, List.singleton_append]

/-! ### Cuts -/

/-- A way to cut a text: at characters that end a piece, and around the words between them. -/
inductive Cut : List Char → Prop
  | nil : Cut []
  | ending {c : Char} {rest : List Char} (h : endsPiece c rest = true) (hrest : Cut rest) :
    Cut (c :: rest)
  | word {word rest : List Char} (hne : word ≠ []) (hword : IsWord word) (hbreaks : Breaks rest)
    (hrest : Cut rest) : Cut (word ++ rest)

/-- Every text can be cut. -/
theorem cut (text : List Char) : Cut text := by
  induction text with
  | nil => exact .nil
  | cons c rest ih =>
    cases hc : endsPiece c rest with
    | true => exact .ending hc ih
    | false =>
      -- the character belongs to a word, to the one that follows if there is one
      cases ih with
      | nil => exact .word (List.cons_ne_nil c []) ⟨hc, trivial⟩ trivial .nil
      | @ending d rest hd hrest =>
        have hbreaks : Breaks (d :: rest) := hd
        rw [← List.nil_append (d :: rest), endsPiece_append hbreaks] at hc
        exact .word (List.cons_ne_nil c []) ⟨hc, trivial⟩ hbreaks (.ending hd hrest)
      | @word word rest hne hword hbreaks hrest =>
        rw [endsPiece_append hbreaks] at hc
        exact .word (List.cons_ne_nil c word) ⟨hc, hword⟩ hbreaks hrest

end Criteria
