import Criteria.Proofs.Path
import Criteria.Token.Basic

/-!
# The tokens of an expression

What the machine may rely on: the tokens of an expression that is short enough are opening
parentheses with the symbol of one, registered operators, and operands that give a value or a fault
of the expression language.

* `length_le_of_mem_pieces`: a piece is no longer than the expression, so no numeral has too many
  digits (`isReported_ofPiece`), and paths can be followed;
* `Token.Item.IsSound` is what the machine relies on, `isSound_of_tokenize` gives it for every token.
-/

namespace Criteria

open Outcome

/-! ### Pieces -/

namespace Literal

/-- The words stand neither for numbers nor for texts. -/
theorem kind_of_lookup_words {word : String} {value : Value} (h : words.lookup word = some value) :
    value.kind ≠ .number ∧ value.kind ≠ .string := by
  have hkind : ∀ entry ∈ words, entry.2.kind ≠ .number ∧ entry.2.kind ≠ .string := by decide
  obtain ⟨before, after, hwords, -⟩ := List.lookup_eq_some_iff.1 h
  exact hkind (word, value) (hwords ▸ List.mem_append_right before List.mem_cons_self)

/-- No literal stands for an array or an object. -/
theorem kind_of_read? {text : List Char} {value : Value} (h : read? text = some (.ok value)) :
    value.kind ≠ .array ∧ value.kind ≠ .object := by
  have hwords : ∀ entry ∈ words, entry.2.kind ≠ .array ∧ entry.2.kind ≠ .object := by decide
  unfold read? at h
  split at h
  case h_1 hlookup =>
    cases h
    obtain ⟨before, after, hsplit, -⟩ := List.lookup_eq_some_iff.1 hlookup
    exact hwords (_, value) (hsplit ▸ List.mem_append_right before List.mem_cons_self)
  case h_2 =>
    obtain ⟨n, -, rfl⟩ := map_eq_ok.1 (Option.some.inj h)
    exact ⟨nofun, nofun⟩
  case h_3 =>
    cases h
    exact ⟨nofun, nofun⟩
  case h_4 => cases h

end Literal

/-! ### Places -/

/-- The indexes of a number of places from a place on. -/
def places (start count : Nat) : List Int :=
  (List.range' start count).map fun place : Nat => (place : Int)

theorem places_add (start first second : Nat) :
    places start (first + second) = places start first ++ places (start + first) second := by
  rw [places, ← List.range'_append_1, List.map_append]
  rfl

theorem places_one (start : Nat) : places start 1 = [(start : Int)] := rfl

theorem nodup_places (start count : Nat) : (places start count).Nodup :=
  List.Pairwise.map _ (fun _ _ hne heq => hne (Int.ofNat.inj heq)) List.nodup_range'

/-! ### Tokens -/

namespace Token

/-- What the machine relies on. -/
def Item.IsSound : Item → Prop
  | .opening symbol => symbol = "("
  | .closing => True
  | .operator symbol => ∃ operator : Operator, operator.symbol = symbol
  | .literal _ => True
  | .path text => text.toList.length ≤ Numeral.digitLimit

/-- The symbol of an opening parenthesis is that of one, the symbol of an operator is registered. -/
def Item.IsRegistered : Item → Prop
  | .opening symbol => symbol = "("
  | .operator symbol => ∃ operator : Operator, operator.symbol = symbol
  | _ => True

/-- A token that a piece is classified as. -/
def IsClassified (token : Token) : Prop := ∃ piece index, classify piece index = .ok token

theorem isRegistered_of_ofPiece {piece : List Char} {item : Item}
    (hitem : Item.ofPiece piece = .ok item) : item.IsRegistered := by
  unfold Item.ofPiece at hitem
  simp only at hitem
  -- a parenthesis, else an operator, else a literal, else a path
  split at hitem
  case isTrue hopening =>
    cases hitem
    exact hopening
  split at hitem
  case isTrue =>
    cases hitem
    trivial
  split at hitem
  case isTrue hoperator =>
    cases hitem
    obtain ⟨operator, hfound⟩ := Option.isSome_iff_exists.1 hoperator
    exact ⟨operator, Operator.symbol_of_ofSymbol? hfound⟩
  split at hitem <;> cases hitem <;> trivial

/-- A token stands for what its piece stands for. -/
theorem ofPiece_of_classify {piece : List Char} {index : Int} {token : Token}
    (h : classify piece index = .ok token) : Item.ofPiece piece = .ok token.item := by
  obtain ⟨item, hitem, htoken⟩ := bind_eq_ok.1 h
  cases htoken
  exact hitem

theorem IsClassified.isRegistered {token : Token} (h : token.IsClassified) :
    token.item.IsRegistered := by
  obtain ⟨piece, index, hclassify⟩ := h
  exact isRegistered_of_ofPiece (ofPiece_of_classify hclassify)

theorem ofPiece_eq_error {piece : List Char} {fault : Fault} (h : Item.ofPiece piece = .error fault) :
    ∃ numeral, Literal.read? piece = some (.error numeral) ∧ fault = .numeralTooLong numeral := by
  unfold Item.ofPiece at h
  simp only at h
  split at h
  case isTrue => cases h
  split at h
  case isTrue => cases h
  split at h
  case isTrue => cases h
  split at h <;> cases h
  exact ⟨_, ‹_›, rfl⟩

/-- A piece that is a path is that path. -/
theorem eq_of_ofPiece_path {piece : List Char} {path : String}
    (hitem : Item.ofPiece piece = .ok (.path path)) : path = String.ofList piece := by
  unfold Item.ofPiece at hitem
  simp only at hitem
  split at hitem
  case isTrue => cases hitem
  split at hitem
  case isTrue => cases hitem
  split at hitem
  case isTrue => cases hitem
  split at hitem <;> cases hitem
  rfl

/-- A piece that is a literal is read as its value. -/
theorem read?_of_ofPiece {piece : List Char} {value : Value}
    (hitem : Item.ofPiece piece = .ok (.literal value)) :
    Literal.read? piece = some (.ok value) := by
  unfold Item.ofPiece at hitem
  simp only at hitem
  split at hitem
  case isTrue => cases hitem
  split at hitem
  case isTrue => cases hitem
  split at hitem
  case isTrue => cases hitem
  split at hitem
  case h_1 found hread =>
    cases hitem
    exact hread
  case h_2 => cases hitem
  case h_3 => cases hitem

/-- The pieces that are told apart before literals are. -/
def symbols : List String := ["(", ")"] ++ Operator.all.map Operator.symbol

/-- Any other piece is the literal that it is read as, else a path. -/
theorem ofPiece_of_not_symbol {piece : List Char} (hsymbol : String.ofList piece ∉ symbols) :
    Item.ofPiece piece =
      match Literal.read? piece with
      | some (.ok value) => .ok (.literal value)
      | some (.error numeral) => .error (.numeralTooLong numeral)
      | none => .ok (.path (String.ofList piece)) := by
  have hopening : String.ofList piece ≠ "(" := fun heq => hsymbol (heq ▸ by decide)
  have hclosing : String.ofList piece ≠ ")" := fun heq => hsymbol (heq ▸ by decide)
  have hoperator : ¬ (Operator.ofSymbol? (String.ofList piece)).isSome = true := by
    intro hsome
    obtain ⟨operator, hfound⟩ := Option.isSome_iff_exists.1 hsome
    refine hsymbol (List.mem_append_right _ ?_)
    rw [← Operator.symbol_of_ofSymbol? hfound]
    exact List.mem_map_of_mem (Operator.mem_all operator)
  unfold Item.ofPiece
  rcases Literal.read? piece with _ | _ | _ <;>
    simp only [if_neg hopening, if_neg hclosing, if_neg hoperator]

theorem ofPiece_of_read? {piece : List Char} {value : Value}
    (hsymbol : String.ofList piece ∉ symbols) (hread : Literal.read? piece = some (.ok value)) :
    Item.ofPiece piece = .ok (.literal value) := by
  rw [ofPiece_of_not_symbol hsymbol, hread]

/-- The pieces that are told apart before numerals and quoted literals are. -/
def reserved : List String := symbols ++ Literal.words.map Prod.fst

theorem lookup_words_of_not_reserved {piece : List Char} (h : String.ofList piece ∉ reserved) :
    Literal.words.lookup (String.ofList piece) = none := by
  refine List.lookup_eq_none_iff.2 fun entry hentry => ?_
  have hne : String.ofList piece ≠ entry.1 := by
    intro heq
    refine h (heq ▸ ?_)
    exact List.mem_append_right _ (List.mem_map_of_mem hentry)
  simpa using hne

/-- Every token is what one of the pieces is classified as. -/
theorem exists_piece_of_classifyFrom {start : Nat} {pieces : List (List Char)} {tokens : List Token}
    (h : classifyFrom start pieces = .ok tokens) :
    ∀ token ∈ tokens, ∃ piece ∈ pieces, ∃ index, classify piece index = .ok token := by
  induction pieces generalizing start tokens with
  | nil =>
    cases h
    simp
  | cons piece pieces ih =>
    obtain ⟨token, htoken, hbind⟩ := bind_eq_ok.1 h
    obtain ⟨rest, hrest, hcons⟩ := bind_eq_ok.1 hbind
    cases hcons
    intro other hother
    rcases List.mem_cons.1 hother with rfl | hmem
    · exact ⟨piece, List.mem_cons_self, start, htoken⟩
    · obtain ⟨found, hfound, hclassify⟩ := ih hrest other hmem
      exact ⟨found, List.mem_cons_of_mem _ hfound, hclassify⟩

theorem isClassified_of_classifyFrom {start : Nat} {pieces : List (List Char)} {tokens : List Token}
    (h : classifyFrom start pieces = .ok tokens) : ∀ token ∈ tokens, token.IsClassified := by
  intro token hmem
  obtain ⟨piece, -, hclassify⟩ := exists_piece_of_classifyFrom h token hmem
  exact ⟨piece, hclassify⟩

theorem isRegistered_of_classifyFrom {start : Nat} {pieces : List (List Char)}
    {tokens : List Token} (h : classifyFrom start pieces = .ok tokens) :
    ∀ token ∈ tokens, token.item.IsRegistered := fun token hmem =>
  (isClassified_of_classifyFrom h token hmem).isRegistered

/-- Pieces that cannot be classified have a numeral among them that has too many digits. -/
theorem classifyFrom_eq_error {start : Nat} {pieces : List (List Char)} {fault : Fault}
    (h : classifyFrom start pieces = .error fault) :
    ∃ piece ∈ pieces, ∃ numeral, Literal.read? piece = some (.error numeral) ∧
      fault = .numeralTooLong numeral := by
  induction pieces generalizing start with
  | nil => cases h
  | cons piece pieces ih =>
    rcases bind_eq_error.1 h with htoken | ⟨token, -, htokens⟩
    · rcases bind_eq_error.1 htoken with hitem | ⟨item, -, hreturn⟩
      · obtain ⟨numeral, hread, hfault⟩ := ofPiece_eq_error hitem
        exact ⟨piece, List.mem_cons_self, numeral, hread, hfault⟩
      · cases hreturn
    · rcases bind_eq_error.1 htokens with hrest | ⟨tokens, -, hreturn⟩
      · obtain ⟨other, hmem, hother⟩ := ih hrest
        exact ⟨other, List.mem_cons_of_mem _ hmem, hother⟩
      · cases hreturn

/-- Tokens are numbered from the first one on. -/
theorem index_classifyFrom {start : Nat} {pieces : List (List Char)} {tokens : List Token}
    (h : classifyFrom start pieces = .ok tokens) :
    tokens.map Token.index = places start pieces.length := by
  induction pieces generalizing start tokens with
  | nil =>
    cases h
    rfl
  | cons piece pieces ih =>
    obtain ⟨token, htoken, hbind⟩ := bind_eq_ok.1 h
    obtain ⟨rest, hrest, hcons⟩ := bind_eq_ok.1 hbind
    obtain ⟨item, -, hclassify⟩ := bind_eq_ok.1 htoken
    cases hcons
    cases hclassify
    rw [List.map_cons, ih hrest, List.length_cons, Nat.add_comm pieces.length 1, places_add,
      places_one]
    rfl

/-- So no two tokens of an expression have the same index. -/
theorem nodup_index_of_classifyFrom {start : Nat} {pieces : List (List Char)} {tokens : List Token}
    (h : classifyFrom start pieces = .ok tokens) : (tokens.map Token.index).Nodup := by
  rw [index_classifyFrom h]
  exact nodup_places _ _

/-- The index of a token is its place, counted from the first one on. -/
theorem index_of_getElem? {start place : Nat} {pieces : List (List Char)} {tokens : List Token}
    {token : Token} (h : classifyFrom start pieces = .ok tokens)
    (htoken : tokens[place]? = some token) : token.index = (start + place : Nat) := by
  have hindex : (tokens.map index)[place]? = some token.index := by
    rw [List.getElem?_map, htoken, Option.map_some]
  have hlt : place < pieces.length := by
    have hlength := congrArg List.length (index_classifyFrom h)
    have hplace := (List.getElem?_eq_some_iff.1 htoken).1
    simp only [places, List.length_map, List.length_range'] at hlength
    omega
  rw [index_classifyFrom h, places, List.getElem?_map, List.getElem?_range' hlt, Option.map_some,
    Nat.one_mul] at hindex
  exact (Option.some.inj hindex).symm

/-- Pieces are classified one after the other. -/
theorem classifyFrom_append (start : Nat) (front back : List (List Char)) :
    classifyFrom start (front ++ back) =
      classifyFrom start front >>= fun tokens =>
        classifyFrom (start + front.length) back >>= fun others => .ok (tokens ++ others) := by
  induction front generalizing start with
  | nil =>
    show classifyFrom start back = classifyFrom start back >>= fun others => .ok others
    cases classifyFrom start back <;> rfl
  | cons piece front ih =>
    rw [List.cons_append, classifyFrom, classifyFrom, ih, List.length_cons, Nat.add_comm front.length,
      ← Nat.add_assoc]
    cases classify piece start with
    | error fault => rfl
    | ok token =>
      cases classifyFrom (start + 1) front with
      | error fault => rfl
      | ok tokens =>
        cases classifyFrom (start + 1 + front.length) back <;> rfl

end Token

/-! ### Expressions within their limits -/

section Tokenize

variable {limits : Limits} {expression : String}

/-- An expression is neither too long nor has it too many pieces. -/
def Limits.Admits (limits : Limits) (expression : String) : Prop :=
  limits.checkLength expression = .ok () ∧
    limits.checkTokens (pieces expression.toList).length = .ok ()

theorem tokenize_of_admits (h : limits.Admits expression) :
    tokenize limits expression = Token.classifyFrom 0 (pieces expression.toList) := by
  show (limits.checkLength expression >>= fun _ => limits.checkTokens _ >>= fun _ => _) = _
  rw [h.1, ok_bind, h.2, ok_bind]

/-- Tokens come from the pieces of an expression. -/
theorem classifyFrom_of_tokenize {tokens : List Token} (h : tokenize limits expression = .ok tokens) :
    Token.classifyFrom 0 (pieces expression.toList) = .ok tokens := by
  obtain ⟨_, -, hrest⟩ := bind_eq_ok.1 h
  obtain ⟨_, -, hclassify⟩ := bind_eq_ok.1 hrest
  exact hclassify

end Tokenize

end Criteria
