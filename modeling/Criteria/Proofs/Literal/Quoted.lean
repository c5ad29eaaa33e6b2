import Criteria.Evaluate
import Criteria.Proofs.Machine.Correspondence
import Criteria.Proofs.Spacing
import Criteria.Proofs.Token

/-!
# Quoted literals

An expression is cut into pieces before quotes are looked at, so a literal holds no character that ends
a piece, and it loses its quotes. No operator makes up for this: the only texts that an expression gets
out of itself are its literals, and what `+` puts together of them (`isKept_isQuotable`).

* `IsQuotable`: characters that stay together and hold no quote;
* `isQuotable_of_literal`: the texts of literals, and `str_of_apply`: where a text comes from that an
  operator gives;
* `isQuotable_of_evaluate_null`: an expression that finds nothing in its data has no other text as its
  value, whatever its pieces are;
* `evaluate_quoted`: a string between quotes is its own value exactly if it is quotable.
-/

namespace Criteria

open Outcome

variable {front back word text piece : List Char} {limits : Limits} {data value a b : Value}

/-! ### Words -/

theorem IsWord.append (hfront : IsWord front) (hback : IsWord back) : IsWord (front ++ back) := by
  induction front with
  | nil => exact hback
  | cons c front ih =>
    refine ⟨?_, ih hfront.2⟩
    obtain ⟨hblank, hopening, hclosing, hmark⟩ := endsPiece_eq_false_iff.1 hfront.1
    refine endsPiece_eq_false_iff.2 ⟨hblank, hopening, hclosing, fun hc => ?_⟩
    show (front ++ back).head? = some '='
    rw [List.head?_append, hmark hc]
    rfl

namespace Literal

/-- Characters that stay together, none of which is a quote. -/
structure IsQuotable (word : List Char) : Prop where
  isWord : IsWord word
  not_quote : quote ∉ word

theorem IsQuotable.append (hfront : IsQuotable front) (hback : IsQuotable back) :
    IsQuotable (front ++ back) where
  isWord := hfront.isWord.append hback.isWord
  not_quote := by
    rw [List.mem_append, not_or]
    exact ⟨hfront.not_quote, hback.not_quote⟩

/-- Without its quotes a word is still one: what stands behind a `!` is no quote. -/
theorem isQuotable_filter (h : IsWord word) : IsQuotable (word.filter (· != quote)) where
  not_quote := by simp
  isWord := by
    induction word with
    | nil => trivial
    | cons c word ih =>
      rw [List.filter_cons]
      split
      case isFalse => exact ih h.2
      case isTrue =>
        refine ⟨?_, ih h.2⟩
        obtain ⟨hblank, hopening, hclosing, hmark⟩ := endsPiece_eq_false_iff.1 h.1
        refine endsPiece_eq_false_iff.2 ⟨hblank, hopening, hclosing, fun hc => ?_⟩
        obtain ⟨rest, rfl⟩ := List.head?_eq_some_iff.1 (hmark hc)
        rfl

/-! ### The texts of literals -/

/-- A literal that is a text is a quoted one. -/
theorem read?_eq_str {t : Text} (h : read? piece = some (.ok (.str t))) :
    ∃ body, readQuoted? piece = some body ∧ t = Text.ofChars body := by
  unfold read? at h
  split at h
  case h_1 value hword =>
    cases h
    exact absurd rfl (kind_of_lookup_words hword).2
  case h_2 result _ _ =>
    cases result <;> cases h
  case h_3 body _ _ hbody =>
    cases h
    exact ⟨body, hbody, rfl⟩
  case h_4 => cases h

/-- A quoted piece is a word, since no delimiter has two quotes. -/
theorem isQuotable_of_readQuoted? {body : List Char} (hpiece : IsPiece piece)
    (h : readQuoted? piece = some body) : IsQuotable body := by
  unfold readQuoted? at h
  split at h
  case isFalse => cases h
  case isTrue hquoted =>
    cases h
    rcases isPiece_iff.1 hpiece with (rfl | rfl | rfl) | ⟨-, hword⟩
    · exact absurd hquoted.1 (by decide)
    · exact absurd hquoted.1 (by decide)
    · exact absurd hquoted.1 (by decide)
    · exact isQuotable_filter hword

end Literal

open Literal

namespace Value

/-- A value that is no text, or a text that can stand between quotes. -/
def IsQuotable (value : Value) : Prop :=
  ∀ text, value = .str text → ∃ word, text = Text.ofChars word ∧ Literal.IsQuotable word

theorem isQuotable_of_literal (hpiece : IsPiece piece)
    (h : Token.Item.ofPiece piece = .ok (.literal value)) : value.IsQuotable := by
  rintro text rfl
  obtain ⟨body, hbody, rfl⟩ := read?_eq_str (Token.read?_of_ofPiece h)
  exact ⟨body, rfl, isQuotable_of_readQuoted? hpiece hbody⟩

/-! ### Where texts come from -/

theorem arithmetic_ne_str {verb : String} {combine : Number → Number → Option Number} {t : Text} :
    arithmetic verb combine a b ≠ .ok (.str t) := by
  unfold arithmetic
  split
  · split <;> rintro ⟨⟩
  · rintro ⟨⟩

theorem ordering_ne_str {symbol : String} {ofNumbers : Number → Number → Bool}
    {ofTexts : Text → Text → Bool} {t : Text} :
    ordering symbol ofNumbers ofTexts a b ≠ .ok (.str t) := by
  unfold ordering
  split
  · rintro ⟨⟩
  · split <;> rintro ⟨⟩

/-- An operator gives a text only by putting two texts together, or as one of its operands. -/
theorem str_of_apply {nesting : Nat} {operator : BinaryOperator} {t : Text}
    (h : operator.apply nesting a b = .ok (.str t)) :
    (∃ s u, a = .str s ∧ b = .str u ∧ t = s ++ u) ∨ a = .str t ∨ b = .str t := by
  cases operator with
  | add =>
    have hadd : a.add b = .ok (.str t) := h
    unfold Value.add at hadd
    split at hadd
    · cases hadd
      exact .inl ⟨_, _, rfl, rfl, rfl⟩
    · exact absurd hadd arithmetic_ne_str
  | subtract => exact absurd h arithmetic_ne_str
  | multiply => exact absurd h arithmetic_ne_str
  | divide =>
    have hdivide : a.divide b = .ok (.str t) := h
    exact absurd hdivide arithmetic_ne_str
  | equal => cases h
  | notEqual => cases h
  | and =>
    have hand : a.and b = .str t := Except.ok.inj h
    unfold Value.and at hand
    split at hand
    · exact .inr (.inr hand)
    · exact .inr (.inl hand)
  | or =>
    have hor : a.or b = .str t := Except.ok.inj h
    unfold Value.or at hor
    split at hor
    · exact .inr (.inl hor)
    · exact .inr (.inr hor)
  | greater => exact absurd h ordering_ne_str
  | less => exact absurd h ordering_ne_str
  | contains =>
    have hcontains : a.contains nesting b = .ok (.str t) := h
    unfold Value.contains at hcontains
    split at hcontains <;> cases hcontains
  | hasLength =>
    have hlength : a.hasLength b = .str t := Except.ok.inj h
    unfold Value.hasLength at hlength
    split at hlength <;> cases hlength

theorem isKept_isQuotable : IsKept IsQuotable := by
  rintro nesting operator operands _ hoperands happly t rfl
  unfold Operator.apply at happly
  split at happly
  case h_1 => cases happly
  case h_2 operator a b =>
    have ha := hoperands a (by simp)
    have hb := hoperands b (by simp)
    rcases str_of_apply happly with ⟨s, u, rfl, rfl, rfl⟩ | rfl | rfl
    · obtain ⟨front, rfl, hfront⟩ := ha s rfl
      obtain ⟨back, rfl, hback⟩ := hb u rfl
      exact ⟨front ++ back, (List.map_append).symm, hfront.append hback⟩
    · exact ha t rfl
    · exact hb t rfl
  case h_3 => cases happly

/-! ### Paths that lead nowhere -/

theorem followAll_undefined (segments : List (List Char)) :
    undefined.followAll segments = .ok .undefined := by
  induction segments with
  | nil => rfl
  | cons segment segments ih => exact ih

/-- No path leads anywhere in `null`. -/
theorem eq_undefined_of_resolve_null {path : List Char} {maxDepth : Option Int}
    (h : null.resolve path maxDepth = .ok value) : value = .undefined := by
  have hsegments : null.resolveSegments (Path.segments path) maxDepth = .ok value := h
  unfold resolveSegments at hsegments
  split at hsegments
  case isTrue =>
    cases hsegments
    rfl
  case isFalse hne =>
    have hfollow : null.followAll (Path.segments path) = .ok .undefined := by
      cases hpath : Path.segments path with
      | nil => exact absurd (by rw [hpath]; rfl) hne
      | cons segment rest => exact followAll_undefined rest
    rw [hfollow] at hsegments
    split at hsegments
    case h_1 =>
      cases hsegments
      rfl
    case h_2 =>
      split at hsegments <;> cases hsegments
      rfl

end Value

/-! ### Strings between quotes -/

/-- Without data an expression has no text as its value but a quotable one. -/
theorem isQuotable_of_evaluate_null {nesting : Nat} {expression : String}
    (h : evaluate nesting limits .null expression = .ok value) : value.IsQuotable := by
  obtain ⟨tokens, htokens, hvalue⟩ := bind_eq_ok.1 h
  have hpieces := Token.exists_piece_of_classifyFrom (classifyFrom_of_tokenize htokens)
  refine Value.isKept_isQuotable.evaluateTokens (fun token htoken operand hoperand found hfound => ?_)
    hvalue
  cases operand with
  | literal literal =>
    obtain ⟨piece, hpiece, index, hclassify⟩ := hpieces token htoken
    have hliteral := Token.ofPiece_of_classify hclassify
    rw [Token.item_of_operand? hoperand] at hliteral
    cases hfound
    exact Value.isQuotable_of_literal (isPiece_of_mem_pieces hpiece) hliteral
  | path path =>
    have hresolve : Value.null.resolve path.toList (some limits.maxPathDepth) = .ok found := hfound
    rw [Value.eq_undefined_of_resolve_null hresolve]
    rintro text ⟨⟩

namespace Literal

/-- A string with a quote before and behind it. -/
def quoted (s : String) : String := String.ofList (quote :: (s.toList ++ [quote]))

variable {s : String}

theorem toList_quoted : (quoted s).toList = quote :: (s.toList ++ [quote]) := String.toList_ofList

/-- Nothing that is told apart before quoted literals begins with a quote. -/
theorem quoted_not_reserved : String.ofList (quoted s).toList ∉ Token.reserved := by
  have hhead : ∀ reserved ∈ Token.reserved, reserved.toList.head? ≠ some quote := by decide
  intro hmem
  refine hhead _ hmem ?_
  rw [String.toList_ofList, toList_quoted]
  rfl

/-- A string without quotes is what it stands for between quotes. -/
theorem read?_quoted (h : quote ∉ s.toList) :
    read? (quoted s).toList = some (.ok (.ofString s)) := by
  have hnumeral : readNumeral? (quoted s).toList = none := by
    rw [toList_quoted]
    rfl
  have hquoted : readQuoted? (quoted s).toList = some s.toList := by
    have hfilter : s.toList.filter (· != quote) = s.toList :=
      List.filter_eq_self.2 fun c hc => by simpa using ne_of_mem_of_not_mem hc h
    have hlast : (quote :: (s.toList ++ [quote])).getLast? = some quote := by
      rw [← List.cons_append, List.getLast?_concat]
    rw [toList_quoted, readQuoted?, if_pos ⟨by simp, rfl, hlast⟩]
    simp [hfilter]
  rw [read?, Token.lookup_words_of_not_reserved quoted_not_reserved, hnumeral, hquoted]
  rfl

theorem pieces_quoted (h : IsWord s.toList) : pieces (quoted s).toList = [(quoted s).toList] := by
  have hquote : IsWord [quote] := ⟨rfl, trivial⟩
  have hword : IsWord (quoted s).toList := by
    rw [toList_quoted]
    exact hquote.append (h.append hquote)
  refine pieces_of_isWord hword ?_
  rw [toList_quoted]
  exact List.cons_ne_nil _ _

theorem admits_quoted (hlength : s.length ≤ 4094) (h : IsWord s.toList) :
    Limits.standard.Admits (quoted s) := by
  have hquoted : ((quoted s).length : Int) = s.length + 2 := by
    rw [quoted, String.length_ofList, List.length_cons, List.length_append, String.length_toList]
    rfl
  refine ⟨?_, ?_⟩
  · rw [Limits.checkLength, hquoted, if_neg]
    show ¬(4096 : Int) < s.length + 2
    omega
  · rw [pieces_quoted h]
    rfl

/-- Between quotes a quotable string is a literal of its own. -/
theorem evaluate_of_isQuotable (nesting : Nat) (hadmits : limits.Admits (quoted s))
    (h : IsQuotable s.toList) :
    evaluate nesting limits data (quoted s) = .ok (.ofString s) := by
  have hsymbol : String.ofList (quoted s).toList ∉ Token.symbols := fun hmem =>
    quoted_not_reserved (List.mem_append_left _ hmem)
  have hitem := Token.ofPiece_of_read? hsymbol (read?_quoted h.not_quote)
  have htokens : tokenize limits (quoted s) =
      .ok [⟨.literal (.ofString s), String.ofList (quoted s).toList, 0⟩] := by
    rw [tokenize_of_admits hadmits, pieces_quoted h.isWord, Token.classifyFrom, Token.classify, hitem]
    rfl
  rw [evaluate, htokens]
  rfl

/-- **What can stand between quotes.** A string of at most 4094 characters is its own value between
quotes exactly if it holds no quote, no blank and no parenthesis, and `=` comes right behind every
`!` in it. -/
theorem evaluate_quoted (nesting : Nat) (s : String) (hlength : s.length ≤ 4094) :
    evaluate nesting .standard .null (quoted s) = .ok (.ofString s) ↔
      quote ∉ s.toList ∧ (∀ c ∈ s.toList, isBlank c = false) ∧ '(' ∉ s.toList ∧ ')' ∉ s.toList ∧
        ∀ front back, s.toList = front ++ '!' :: back → back.head? = some '=' := by
  rw [← isWord_iff]
  constructor
  · intro h
    obtain ⟨word, htext, hword⟩ := isQuotable_of_evaluate_null h (Text.ofString s) rfl
    obtain rfl : s.toList = word := Text.ofChars_inj.1 htext
    exact ⟨hword.not_quote, hword.isWord⟩
  · rintro ⟨hquote, hword⟩
    exact evaluate_of_isQuotable nesting (admits_quoted hlength hword) ⟨hword, hquote⟩

/-- `a!=b` can stand between quotes. -/
theorem evaluate_quoted_unequal :
    "a!=b".length ≤ 4094 ∧ evaluate 1000 .standard .null (quoted "a!=b") = .ok (.ofString "a!=b") := by
  have hlength : "a!=b".length ≤ 4094 := by decide
  have hword : IsWord "a!=b".toList := by
    show IsWord ['a', '!', '=', 'b']
    exact ⟨rfl, rfl, rfl, rfl, trivial⟩
  exact ⟨hlength, (evaluate_quoted 1000 "a!=b" hlength).2 ⟨by decide, isWord_iff.1 hword⟩⟩

end Literal

end Criteria
