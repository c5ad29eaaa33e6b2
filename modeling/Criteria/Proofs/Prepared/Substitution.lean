import Criteria.Prepared.Substitution
import Criteria.Proofs.Pieces

/-!
# Substitution, piece by piece

Replacing a name looks at the characters around it, cutting an expression looks at those that end a
piece. Both come to the same if no piece that is the name stands directly after `)` or directly before
`(` or `!`: these end a piece, but are no boundaries of a name. Then a replacement in parentheses is
put exactly where the name is a piece, and nothing around it is cut in another way
(`pieces_substitute`).

* `IsName`: names that are a single piece wherever they stand;
* `Occurs`, `IsSeparated`: where a name is a piece of a text, and that it stands between boundaries
  there;
* `substitute_ending`, `substitute_name`, `substitute_word`: what happens to the parts of a cut.
-/

namespace Criteria.Conditions

variable {name replacement text rest before after word : List Char} {c : Char}

/-- A name of one or more characters, without blanks, parentheses or `!`, which does not begin with
`=`. -/
structure IsName (name : List Char) : Prop where
  ne_nil : name ≠ []
  isBlank : ∀ c ∈ name, isBlank c = false
  ne_opening : '(' ∉ name
  ne_closing : ')' ∉ name
  ne_mark : '!' ∉ name
  head? : name.head? ≠ some '='

/-- A name is a piece of a text between two parts of it. -/
structure Occurs (name before after text : List Char) : Prop where
  text_eq : text = before ++ (name ++ after)
  pieces_eq : pieces text = pieces before ++ name :: pieces after

/-- Wherever a name is a piece, it stands neither directly after `)` nor directly before `(` or `!`.
Any blank in between is enough. -/
def IsSeparated (name text : List Char) : Prop :=
  ∀ before after, Occurs name before after text →
    before.getLast? ≠ some ')' ∧ after.head? ≠ some '(' ∧ after.head? ≠ some '!'

instance : Decidable (Occurs name before after text) :=
  decidable_of_iff (text = before ++ (name ++ after) ∧
    pieces text = pieces before ++ name :: pieces after)
    ⟨fun h => ⟨h.1, h.2⟩, fun h => ⟨h.text_eq, h.pieces_eq⟩⟩

/-- It is enough to look at the places where the name can begin. -/
theorem isSeparated_iff :
    IsSeparated name text ↔ ∀ start ∈ List.range (text.length + 1),
      Occurs name (text.take start) (text.drop (start + name.length)) text →
        (text.take start).getLast? ≠ some ')' ∧
          (text.drop (start + name.length)).head? ≠ some '(' ∧
            (text.drop (start + name.length)).head? ≠ some '!' := by
  constructor
  · exact fun h start _ hoccurs => h _ _ hoccurs
  · intro h before after hoccurs
    have htake : text.take before.length = before := by rw [hoccurs.text_eq, List.take_left]
    have hdrop : text.drop (before.length + name.length) = after := by
      rw [hoccurs.text_eq, ← List.append_assoc, ← List.length_append, List.drop_left]
    have hlength : before.length ∈ List.range (text.length + 1) := by
      rw [List.mem_range, hoccurs.text_eq, List.length_append]
      omega
    have hstart := h before.length hlength
    rw [htake, hdrop] at hstart
    exact hstart hoccurs

instance : Decidable (IsSeparated name text) := decidable_of_iff _ isSeparated_iff.symm

/-! ### Boundaries -/

theorem standsAt_iff :
    standsAt name text = true ↔ ∃ after, text = name ++ after ∧ closes after = true := by
  rw [standsAt, Bool.and_eq_true, List.isPrefixOf_iff_prefix]
  constructor
  · rintro ⟨⟨after, rfl⟩, hcloses⟩
    rw [List.drop_left] at hcloses
    exact ⟨after, rfl, hcloses⟩
  · rintro ⟨after, rfl, hcloses⟩
    rw [List.drop_left]
    exact ⟨List.prefix_append name after, hcloses⟩

/-- Every boundary after a name ends a piece. -/
theorem breaks_of_closes (h : closes after = true) : Breaks after := by
  cases after with
  | nil => trivial
  | cons c rest =>
    rcases Bool.or_eq_true_iff.1 h with hblank | hclosing
    · exact Bool.or_eq_true_iff.2 (Or.inr hblank)
    · cases beq_iff_eq.1 hclosing
      rfl

/-- What ends a piece is a boundary after a name, unless it is `(` or `!`. -/
theorem closes_of_breaks (h : Breaks after) (hopening : after.head? ≠ some '(')
    (hmark : after.head? ≠ some '!') : closes after = true := by
  cases after with
  | nil => rfl
  | cons c rest =>
    rw [closes, Bool.or_eq_true, beq_iff_eq]
    rcases endsPiece_iff.1 h with rfl | rfl | ⟨rfl, -⟩ | hblank
    · exact absurd rfl hopening
    · exact Or.inr rfl
    · exact absurd rfl hmark
    · exact Or.inl hblank

/-- What ends a piece is a boundary before a name, unless it is `)`. -/
theorem opens_of_endsPiece (h : endsPiece c rest = true) (hclosing : c ≠ ')') : opens c = true := by
  rw [opens, Bool.or_eq_true, Bool.or_eq_true, beq_iff_eq, beq_iff_eq]
  rcases endsPiece_iff.1 h with rfl | rfl | ⟨rfl, -⟩ | hblank
  · exact Or.inl (Or.inr rfl)
  · exact absurd rfl hclosing
  · exact Or.inr rfl
  · exact Or.inl (Or.inl hblank)

/-- A boundary before a name that ends no piece is a `!` before `=`. -/
theorem head?_of_opens (h : opens c = true) (hends : endsPiece c rest = false) :
    rest.head? = some '=' := by
  refine Decidable.byContradiction fun hne => Bool.eq_false_iff.1 hends (endsPiece_iff.2 ?_)
  rw [opens, Bool.or_eq_true, Bool.or_eq_true, beq_iff_eq, beq_iff_eq] at h
  rcases h with (hblank | hopening) | hmark
  · exact Or.inr (Or.inr (Or.inr hblank))
  · exact Or.inl hopening
  · exact Or.inr (Or.inr (Or.inl ⟨hmark, hne⟩))

/-! ### Names -/

namespace IsName

theorem endsPiece_of_mem (h : IsName name) (hc : c ∈ name) : endsPiece c rest = false := by
  refine Bool.eq_false_iff.2 fun hends => ?_
  rcases endsPiece_iff.1 hends with rfl | rfl | ⟨rfl, -⟩ | hblank
  · exact h.ne_opening hc
  · exact h.ne_closing hc
  · exact h.ne_mark hc
  · rw [h.isBlank c hc] at hblank
    cases hblank

theorem isWord (h : IsName name) : IsWord name := by
  have hall : ∀ part : List Char, (∀ c ∈ part, c ∈ name) → IsWord part := by
    intro part hpart
    induction part with
    | nil => trivial
    | cons c part ih =>
      exact ⟨h.endsPiece_of_mem (hpart c List.mem_cons_self),
        ih fun d hd => hpart d (List.mem_cons_of_mem c hd)⟩
  exact hall name fun _ hc => hc

/-- What begins with a name does not begin with `=`. -/
theorem head?_append_ne (h : IsName name) : (name ++ after).head? ≠ some '=' := by
  obtain ⟨c, rest, rfl⟩ := List.exists_cons_of_ne_nil h.ne_nil
  exact h.head?

/-- A name does not stand where a piece ends. -/
theorem standsAt_of_breaks (h : IsName name) (hbreaks : Breaks text) :
    standsAt name text = false := by
  refine Bool.eq_false_iff.2 fun hstands => ?_
  obtain ⟨after, rfl, -⟩ := standsAt_iff.1 hstands
  obtain ⟨c, rest, rfl⟩ := List.exists_cons_of_ne_nil h.ne_nil
  rw [List.cons_append, Breaks, h.endsPiece_of_mem List.mem_cons_self] at hbreaks
  cases hbreaks

/-- A name stands at the beginning of no other word. -/
theorem standsAt_word (h : IsName name) (hword : IsWord word) (hne : word ≠ name)
    (hbreaks : Breaks rest) : standsAt name (word ++ rest) = false := by
  refine Bool.eq_false_iff.2 fun hstands => ?_
  obtain ⟨after, htext, hcloses⟩ := standsAt_iff.1 hstands
  rcases List.append_eq_append_iff.1 htext with ⟨more, hname, hrest⟩ | ⟨more, hmore, hafter⟩
  · -- the name is longer than the word, so a character of it ends a piece
    obtain _ | ⟨c, more⟩ := more
    · exact hne (by rw [hname, List.append_nil])
    · rw [hrest, List.cons_append, Breaks, h.endsPiece_of_mem (by simp [hname])] at hbreaks
      cases hbreaks
  · -- the word is longer than the name, so the name ends where no piece ends
    obtain _ | ⟨c, more⟩ := more
    · exact hne (by rw [hmore, List.append_nil])
    · have hends := breaks_of_closes hcloses
      rw [hafter, List.cons_append, Breaks, endsPiece_append hbreaks] at hends
      rw [hmore] at hword
      rw [hword.of_append.1] at hends
      cases hends

/-- Only the beginning of what follows a text up to a name matters. -/
theorem head?_append (h : IsName name) :
    (before ++ (name ++ after)).head? = some '=' ↔ before.head? = some '=' := by
  cases before with
  | nil => exact iff_of_false h.head?_append_ne (by simp)
  | cons c before => exact Iff.rfl

end IsName

/-! ### Parts of a cut -/

/-- The characters of the name are passed over. -/
theorem substituteAfter_length (front : List Char) :
    substituteAfter name replacement (front ++ rest) front.length =
      substituteAfter name replacement rest 0 := by
  induction front with
  | nil => rfl
  | cons c front ih => exact ih

theorem substitute_of_not (h : standsAt name text = false) :
    substitute name replacement text = substituteAfter name replacement text 0 := by
  rw [substitute, h]
  rfl

/-- A character stays, and what follows it begins anew unless a name stands there without a boundary
before it. -/
theorem substituteAfter_cons (h : opens c = true ∨ standsAt name rest = false) :
    substituteAfter name replacement (c :: rest) 0 = c :: substitute name replacement rest := by
  rw [substituteAfter, substitute]
  cases hstands : standsAt name rest with
  | false =>
    rw [Bool.and_false]
    rfl
  | true =>
    rcases h with hopens | hnot
    · rw [hopens]
      rfl
    · rw [hstands] at hnot
      cases hnot

namespace IsName

variable (h : IsName name)

include h

/-- What ends a piece stays. -/
theorem substitute_ending (hends : endsPiece c rest = true)
    (hclosing : c = ')' → standsAt name rest = false) :
    substitute name replacement (c :: rest) = c :: substitute name replacement rest := by
  have hbreaks : Breaks (c :: rest) := hends
  rw [substitute_of_not (h.standsAt_of_breaks hbreaks), substituteAfter_cons]
  by_cases hc : c = ')'
  · exact Or.inr (hclosing hc)
  · exact Or.inl (opens_of_endsPiece hends hc)

/-- The name is replaced before a boundary. -/
theorem substitute_name (hcloses : closes rest = true) :
    substitute name replacement (name ++ rest) =
      replacement ++ substitute name replacement rest := by
  have hstands : standsAt name (name ++ rest) = true := standsAt_iff.2 ⟨rest, rfl, hcloses⟩
  have hrest := h.standsAt_of_breaks (breaks_of_closes hcloses)
  rw [substitute, hstands, if_pos rfl, substituteAfter_length, substitute_of_not hrest]

/-- Any other word stays. -/
theorem substitute_word (hword : IsWord word) (hne : word ≠ name) (hbreaks : Breaks rest) :
    substitute name replacement (word ++ rest) = word ++ substitute name replacement rest := by
  rw [substitute_of_not (h.standsAt_word hword hne hbreaks),
    substitute_of_not (h.standsAt_of_breaks hbreaks)]
  clear hne
  induction word with
  | nil => rfl
  | cons c word ih =>
    have hends := hword.1
    rw [← endsPiece_append hbreaks] at hends
    rw [List.cons_append, substituteAfter, ih hword.2]
    -- a boundary inside a word is a `!` before `=`, where no name begins
    cases hstands : opens c && standsAt name (word ++ rest) with
    | false => rfl
    | true =>
      obtain ⟨hopens, hname⟩ := Bool.and_eq_true_iff.1 hstands
      obtain ⟨after, hafter, -⟩ := standsAt_iff.1 hname
      have hhead := head?_of_opens hopens hends
      rw [hafter] at hhead
      exact absurd hhead h.head?_append_ne

/-- A replacement in parentheses does not change whether a text begins with `=`. -/
theorem head?_substitute (body : List Char) :
    (substitute name ('(' :: body) text).head? = some '=' ↔ text.head? = some '=' := by
  rw [substitute]
  split
  case isTrue hstands =>
    obtain ⟨after, rfl, -⟩ := standsAt_iff.1 hstands
    exact iff_of_false (by simp) h.head?_append_ne
  case isFalse =>
    cases text with
    | nil => exact Iff.rfl
    | cons c rest =>
      rw [substituteAfter]
      split <;> exact Iff.rfl

end IsName

/-! ### Where a name is a piece -/

section Occurs

variable (hname : IsName name)

include hname

/-- A piece of a text is a piece of every text that is longer by what ends a piece. -/
theorem Occurs.cons (h : Occurs name before after rest) (hends : endsPiece c rest = true) :
    Occurs name (c :: before) after (c :: rest) := by
  refine ⟨congrArg (c :: ·) h.text_eq, ?_⟩
  have hbefore : standsAlone c rest = standsAlone c before :=
    standsAlone_congr (by rw [h.text_eq]; exact hname.head?_append)
  rcases Bool.or_eq_true_iff.1 hends with halone | hblank
  · rw [pieces_cons_of_standsAlone halone, pieces_cons_of_standsAlone (hbefore ▸ halone),
      h.pieces_eq, List.cons_append]
  · rw [pieces_cons_of_isBlank hblank, pieces_cons_of_isBlank hblank, h.pieces_eq]

theorem Occurs.word_append (h : Occurs name before after rest) (hword : IsWord word)
    (hne : word ≠ []) (hbreaks : Breaks rest) :
    Occurs name (word ++ before) after (word ++ rest) := by
  have hbefore : Breaks before := by
    cases before with
    | nil => trivial
    | cons c before =>
      rw [h.text_eq, List.cons_append, Breaks, endsPiece_congr hname.head?_append] at hbreaks
      exact hbreaks
  refine ⟨by rw [h.text_eq, List.append_assoc], ?_⟩
  rw [pieces_word_append hword hne hbreaks, pieces_word_append hword hne hbefore, h.pieces_eq,
    List.cons_append]

theorem IsSeparated.of_cons (h : IsSeparated name (c :: rest)) (hends : endsPiece c rest = true) :
    IsSeparated name rest := by
  intro before after hoccurs
  obtain ⟨hbefore, hafter⟩ := h _ _ (hoccurs.cons hname hends)
  refine ⟨fun hclosing => hbefore ?_, hafter⟩
  rw [List.getLast?_cons, hclosing]
  rfl

theorem IsSeparated.of_word_append (h : IsSeparated name (word ++ rest)) (hword : IsWord word)
    (hne : word ≠ []) (hbreaks : Breaks rest) : IsSeparated name rest := by
  intro before after hoccurs
  obtain ⟨hbefore, hafter⟩ := h _ _ (hoccurs.word_append hname hword hne hbreaks)
  refine ⟨fun hclosing => hbefore ?_, hafter⟩
  rw [List.getLast?_append, hclosing]
  rfl

/-- A separated name does not stand after `)`. -/
theorem IsSeparated.standsAt_closing (h : IsSeparated name (')' :: rest)) :
    standsAt name rest = false := by
  refine Bool.eq_false_iff.2 fun hstands => ?_
  obtain ⟨after, rfl, hcloses⟩ := standsAt_iff.1 hstands
  have hbreaks := breaks_of_closes hcloses
  have hoccurs : Occurs name [')'] after (')' :: (name ++ after)) := by
    refine ⟨rfl, ?_⟩
    rw [pieces_cons_of_standsAlone rfl, pieces_word_append hname.isWord hname.ne_nil hbreaks]
    rfl
  exact (h _ _ hoccurs).1 rfl

/-- A separated name ends at a boundary. -/
theorem IsSeparated.closes_name (h : IsSeparated name (name ++ rest)) (hbreaks : Breaks rest) :
    closes rest = true := by
  have hoccurs : Occurs name [] rest (name ++ rest) :=
    ⟨rfl, pieces_word_append hname.isWord hname.ne_nil hbreaks⟩
  obtain ⟨-, hopening, hmark⟩ := h _ _ hoccurs
  exact closes_of_breaks hbreaks hopening hmark

theorem IsSeparated.substitute_ending (h : IsSeparated name (c :: rest))
    (hends : endsPiece c rest = true) :
    substitute name replacement (c :: rest) = c :: substitute name replacement rest := by
  refine hname.substitute_ending hends ?_
  rintro rfl
  exact h.standsAt_closing hname

/-- A replacement in parentheses leaves a piece to end where it ended. -/
theorem IsSeparated.breaks_substitute (body : List Char) (h : IsSeparated name text)
    (hbreaks : Breaks text) : Breaks (substitute name ('(' :: body) text) := by
  cases text with
  | nil =>
    rw [substitute_of_not (hname.standsAt_of_breaks hbreaks)]
    exact hbreaks
  | cons c rest =>
    rw [h.substitute_ending hname hbreaks, Breaks, endsPiece_congr (hname.head?_substitute body)]
    exact hbreaks

end Occurs

/-! ### The pieces of a text in which a name has been replaced -/

/-- The pieces that come in the place of a piece. -/
def expand (name : List Char) (group : List (List Char)) (piece : List Char) : List (List Char) :=
  if piece = name then group else [piece]

/-- The pieces of a text in parentheses. -/
def group (text : List Char) : List (List Char) := ['('] :: pieces text ++ [[')']]

/-- A text in parentheses is cut by itself. -/
theorem pieces_parenthesized (body rest : List Char) :
    pieces ('(' :: body ++ [')'] ++ rest) = group body ++ pieces rest := by
  have hbreaks : Breaks (')' :: rest) := rfl
  rw [List.cons_append, List.cons_append, List.append_assoc, List.singleton_append,
    pieces_cons_of_standsAlone rfl, pieces_append hbreaks, pieces_cons_of_standsAlone rfl]
  simp [group]

/-- **Replacing a name is replacing a piece**: where the pieces that are the name stand between
boundaries, a text in parentheses comes in the place of each of them, and nothing else changes. -/
theorem pieces_substitute (hname : IsName name) (body : List Char)
    (hseparated : IsSeparated name text) :
    pieces (substitute name ('(' :: body ++ [')']) text) =
      (pieces text).flatMap (expand name (group body)) := by
  induction cut text with
  | nil =>
    have hbreaks : Breaks [] := trivial
    rw [substitute_of_not (hname.standsAt_of_breaks hbreaks)]
    rfl
  | @ending c rest hends hrest ih =>
    have hsplit := ih (hseparated.of_cons hname hends)
    rw [hseparated.substitute_ending hname hends]
    rcases Bool.or_eq_true_iff.1 hends with halone | hblank
    · have hne : [c] ≠ name := by
        rintro rfl
        rw [hname.endsPiece_of_mem List.mem_cons_self] at hends
        cases hends
      have hnext : standsAlone c rest =
          standsAlone c (substitute name ('(' :: body ++ [')']) rest) :=
        standsAlone_congr (hname.head?_substitute _).symm
      rw [pieces_cons_of_standsAlone halone, pieces_cons_of_standsAlone (hnext ▸ halone), hsplit,
        List.flatMap_cons, expand, if_neg hne]
      rfl
    · rw [pieces_cons_of_isBlank hblank, pieces_cons_of_isBlank hblank, hsplit]
  | @word word rest hne hword hbreaks hrest ih =>
    have hrestSeparated := hseparated.of_word_append hname hword hne hbreaks
    have hsplit := ih hrestSeparated
    rw [pieces_word_append hword hne hbreaks, List.flatMap_cons, ← hsplit]
    by_cases hw : word = name
    · subst hw
      rw [hname.substitute_name (hseparated.closes_name hname hbreaks), pieces_parenthesized, expand,
        if_pos rfl]
    · have hbreaks' := hrestSeparated.breaks_substitute hname (body ++ [')']) hbreaks
      rw [hname.substitute_word hword hw hbreaks, expand, if_neg hw]
      exact pieces_word_append hword hne hbreaks'

end Criteria.Conditions
