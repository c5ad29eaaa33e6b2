import Criteria.Evaluate
import Criteria.Proofs.Expression.Evaluation
import Criteria.Proofs.FieldName
import Criteria.Proofs.Literal.Numeral
import Criteria.Proofs.Literal.Quoted
import Criteria.Proofs.Path.Composition
import Criteria.Proofs.Spacing

/-!
# Two ways to ask for a size

`hasLength` compares the size of a value with a number; a path that goes on with `length` leads to
the size, which `==` then compares with the number. The two agree wherever the path leads somewhere.

* `Value.exists_follow_length`: they agree on every kind of value, whatever an object has under
  `length`;
* `Token.Item.ofPiece_length`: with `.length` behind it a text is a path, whatever it was before;
* `Value.resolve_length`: such a path leads to `length` in what the path before it leads to;
* `evaluate_between`: the value of an operator between a path and a numeral that are apart;
* `evaluate_hasLength`: the two expressions have the same outcome.
-/

namespace Criteria

open Literal Outcome

/-! ### Values -/

namespace Value

variable {data value : Value} {path : List Char} {maxDepth : Option Int} {depth : Int}

/-- Only a number is equal to a number. -/
theorem hasLength_of_size? {size : Value} {n : Number} (h : value.size? = some size) :
    value.hasLength (.number n) = .bool (size.equal (.number n)) := by
  unfold hasLength
  rw [h]
  cases size <;> rfl

theorem hasLength_of_size?_eq_none {n : Number} (h : value.size? = none) :
    value.hasLength (.number n) = .bool (undefined.equal (.number n)) := by
  unfold hasLength
  rw [h]
  rfl

/-- A value that is not empty leads to its size under `length`, and nowhere if it has none. -/
theorem exists_follow_length (hundefined : value ≠ .undefined) (hnull : value ≠ .null) :
    ∃ size, value.follow Path.lengthSegment = .ok size ∧
      ∀ n, value.hasLength (.number n) = .bool (size.equal (.number n)) := by
  cases value with
  | undefined => exact absurd rfl hundefined
  | null => exact absurd rfl hnull
  | bool b => exact ⟨.undefined, rfl, fun n => hasLength_of_size?_eq_none rfl⟩
  | number m => exact ⟨.undefined, rfl, fun n => hasLength_of_size?_eq_none rfl⟩
  | str text => exact ⟨.int text.length, rfl, fun n => hasLength_of_size? rfl⟩
  | array _ items => exact ⟨.int items.length, rfl, fun n => hasLength_of_size? rfl⟩
  | object _ members =>
    refine ⟨_, rfl, fun n => ?_⟩
    cases hsize : Members.get? members (Text.ofChars Path.lengthSegment) with
    | none => exact hasLength_of_size?_eq_none hsize
    | some size => exact hasLength_of_size? hsize

/-- What a path leads to that leads somewhere is what its segments lead to. -/
theorem followAll_of_resolve (hdata : data.HasPlainNames) (hpath : path ≠ [])
    (hvalue : value ≠ .undefined) (h : data.resolve path maxDepth = .ok value) :
    Path.segments path ≠ [] ∧ data.followAll (Path.segments path) = .ok value := by
  unfold resolve at h
  split at h
  case h_1 found hmember =>
    cases h
    obtain ⟨hsegments, hfollow⟩ := followAll_of_member? hdata hpath hmember
    rw [hsegments]
    exact ⟨List.cons_ne_nil path [], hfollow⟩
  case h_2 =>
    unfold resolveSegments at h
    split at h
    case isTrue =>
      cases h
      exact absurd rfl hvalue
    case isFalse hne =>
      refine ⟨by simpa using hne, ?_⟩
      split at h
      case h_1 => exact h
      case h_2 =>
        split at h
        case isTrue => cases h
        case isFalse => exact h

/-- A path with a separator is not a name in such data. -/
theorem member?_eq_none {c : Char} (hdata : data.HasPlainNames) (hmem : c ∈ path)
    (hc : Path.isSeparator c = true) : data.member? (Text.ofChars path) = none := by
  cases hmember : data.member? (Text.ofChars path) with
  | none => rfl
  | some value =>
    cases hdata with
    | object hnames _ =>
      rw [isPlainName_ofChars.1 (hnames _ value hmember) c hmem] at hc
      cases hc
    | _ => cases hmember

/-- A path that goes on with `length` leads to `length` in what the path before it leads to. -/
theorem resolve_length (hdata : data.HasPlainNames) (hpath : path ≠ [])
    (hvalue : value ≠ .undefined) (h : data.resolve path (some depth) = .ok value)
    (hdepth : (Path.segments path).length < depth) :
    data.resolve (path ++ ".length".toList) (some depth) = value.follow Path.lengthSegment := by
  obtain ⟨hne, hfollow⟩ := followAll_of_resolve hdata hpath hvalue h
  have hsegments : Path.segments (path ++ ".length".toList) =
      Path.segments path ++ [Path.lengthSegment] := Path.segments_append rfl
  have hpoint : '.' ∈ path ++ ".length".toList := by simp
  have hmember := member?_eq_none hdata hpoint rfl
  have hempty : ¬(Path.segments path ++ [Path.lengthSegment]).isEmpty = true := by simp
  have hlimit : ¬depth < (Path.segments path ++ [Path.lengthSegment]).length := by
    rw [List.length_append, List.length_singleton]
    omega
  unfold resolve
  rw [hmember]
  simp only [resolveSegments, hsegments, if_neg hempty, if_neg hlimit]
  rw [followAll_append, hfollow, ok_bind, followAll]
  cases value.follow Path.lengthSegment <;> rfl

end Value

/-! ### Pieces -/

section Pieces

variable {c : Char} {numeral : List Char} {result : Except Numeral.TooLong Int}

theorem isBlank_of_isNumeralChar (h : IsNumeralChar c) : isBlank c = false := by
  rcases h with hdigit | hmem
  · exact isBlank_of_isAlphanum (Bool.or_eq_true_iff.2 (.inr hdigit))
  · simp only [List.mem_cons, List.not_mem_nil, or_false] at hmem
    rcases hmem with rfl | rfl | rfl | rfl | rfl <;> rfl

/-- A numeral is a piece. -/
theorem isPiece_of_readNumeral? (h : readNumeral? numeral = some result) : IsPiece numeral := by
  obtain ⟨hne, hchars⟩ := isNumeralChar_of_readNumeral? h
  refine isPiece_iff.2 (.inr ⟨hne, isWord_of_forall fun c hc => ?_⟩)
  have hnumeral := hchars c hc
  refine ⟨isBlank_of_isNumeralChar hnumeral, ?_, ?_, ?_⟩ <;> rintro rfl <;>
    exact absurd hnumeral (by decide)

/-- A piece that is a path is a word. -/
theorem isWord_of_ofPiece_path {piece : List Char} {path : String} (hpiece : IsPiece piece)
    (h : Token.Item.ofPiece piece = .ok (.path path)) : IsWord piece := by
  rcases isPiece_iff.1 hpiece with (rfl | rfl | rfl) | ⟨-, hword⟩
  · cases h
  · cases h
  · cases h
  · exact hword

/-- A text that is one token, a path, is the piece of the path. -/
theorem isWord_of_tokenize {limits : Limits} {p : String}
    (h : tokenize limits p = .ok [⟨.path p, p, 0⟩]) :
    p.toList ≠ [] ∧ IsWord p.toList ∧
      Token.Item.ofPiece p.toList = .ok (.path (String.ofList p.toList)) := by
  obtain ⟨piece, hmem, index, hclassify⟩ :=
    Token.exists_piece_of_classifyFrom (classifyFrom_of_tokenize h) _ (List.mem_singleton_self _)
  have hpiece := isPiece_of_mem_pieces hmem
  have hitem := Token.ofPiece_of_classify hclassify
  obtain rfl : p = String.ofList piece := Token.eq_of_ofPiece_path hitem
  rw [String.toList_ofList]
  exact ⟨hpiece.ne_nil, isWord_of_ofPiece_path hpiece hitem, hitem⟩

/-- With `.length` behind it a text is a path, whatever it is by itself. -/
theorem Token.Item.ofPiece_length (path : List Char) :
    Token.Item.ofPiece (path ++ ".length".toList) =
      .ok (.path (String.ofList (path ++ ".length".toList))) := by
  have hreserved : String.ofList (path ++ ".length".toList) ∉ Token.reserved := by
    have hpoint : ∀ text ∈ Token.reserved, '.' ∉ text.toList := by decide
    intro hmem
    refine hpoint _ hmem ?_
    rw [String.toList_ofList]
    simp
  have hnumeral : readNumeral? (path ++ ".length".toList) = none := by
    cases hread : readNumeral? (path ++ ".length".toList) with
    | none => rfl
    | some result =>
      have hchar := (isNumeralChar_of_readNumeral? hread).2 'h' (by simp)
      exact absurd hchar (by decide)
  have hquoted : readQuoted? (path ++ ".length".toList) = none := by
    refine if_neg ?_
    rintro ⟨-, -, hlast⟩
    rw [List.getLast?_append] at hlast
    cases hlast
  have hsymbol : String.ofList (path ++ ".length".toList) ∉ Token.symbols := fun hmem =>
    hreserved (List.mem_append_left _ hmem)
  rw [Token.ofPiece_of_not_symbol hsymbol, read?, Token.lookup_words_of_not_reserved hreserved,
    hnumeral, hquoted]

end Pieces

/-! ### Expressions -/

variable {nesting : Nat} {limits : Limits} {data value : Value} {expression : String}
  {path numeral : List Char}
  {operator : BinaryOperator} {read : Except Numeral.TooLong Int} {result : Int → Value}

/-- An operator between a path and a numeral that are apart is applied to the value of the path and
the integer of the numeral, unless the numeral is too long. -/
theorem evaluate_between (hadmits : limits.Admits expression)
    (htext : expression.toList =
      spread [(path, [' ']), (operator.symbol.toList, [' ']), (numeral, [])])
    (hpath : IsPiece path) (hitem : Token.Item.ofPiece path = .ok (.path (String.ofList path)))
    (hnumeral : readNumeral? numeral = some read)
    (hvalue : data.resolve path (some limits.maxPathDepth) = .ok value)
    (happly : ∀ n, operator.apply nesting value (.int n) = .ok (result n)) :
    evaluate nesting limits data expression = (read.map result).mapError Fault.numeralTooLong := by
  have hoperator : pieces operator.symbol.toList = [operator.symbol.toList] := by
    cases operator <;> rfl
  have hspaced : AreSpaced [(path, [' ']), (operator.symbol.toList, [' ']), (numeral, [])] := by
    refine ⟨?_, ?_, ?_⟩
    · simp only [List.forall_mem_cons]
      refine ⟨hpath, ?_, isPiece_of_readNumeral? hnumeral, by simp⟩
      exact isPiece_of_mem_pieces (hoperator ▸ List.mem_singleton_self _)
    · simp [isBlank]
    · simp
  have hpieces : pieces expression.toList = [path, operator.symbol.toList, numeral] := by
    rw [htext, pieces_spread hspaced]
    rfl
  have hsymbol : Token.Item.ofPiece operator.symbol.toList = .ok (.operator operator.symbol) := by
    cases operator <;> rfl
  have hnumber := Token.Item.ofPiece_of_readNumeral? hnumeral
  rw [evaluate, tokenize_of_admits hadmits, hpieces]
  cases read with
  | error numeral =>
    simp only [Token.classifyFrom, Token.classify, hitem, hsymbol, hnumber]
    rfl
  | ok n =>
    let tree : Expression 0 := .binary operator
      (.operand (.path (String.ofList path)) (String.ofList path))
      (.operand (.literal (.int n)) (String.ofList numeral)) (Nat.zero_le _)
    have htokens : Token.classifyFrom 0 [path, operator.symbol.toList, numeral] =
        .ok (tree.tokens 0) := by
      simp only [Token.classifyFrom, Token.classify, hitem, hsymbol, hnumber, String.ofList_toList]
      rfl
    rw [← @String.toList_ofList path] at hvalue
    rw [htokens, ok_bind, (evaluateTokens_eq_evaluate _ tree ⟨trivial, trivial⟩).2]
    simp only [tree, Expression.evaluate, Operand.value, hvalue, ok_bind, happly]
    rfl

/-- **`hasLength` and `length` agree.** Where no name in the data holds a separator, let an
identifier lead to a value that is not empty, with fewer segments than allowed. Then `hasLength`
between the identifier and a numeral, and `==` between the identifier with `.length` and the
numeral, have the same outcome: whether the size of the value is the integer of the numeral, unless
the numeral is too long to be read. -/
theorem evaluate_hasLength (nesting : Nat) {p n : String} (hdata : data.HasPlainNames)
    (hp : tokenize limits p = .ok [⟨.path p, p, 0⟩])
    (hvalue : data.resolve p.toList (some limits.maxPathDepth) = .ok value)
    (hundefined : value ≠ .undefined) (hnull : value ≠ .null)
    (hdepth : (Path.segments p.toList).length < limits.maxPathDepth)
    (hn : readNumeral? n.toList = some read)
    (hadmits : limits.Admits (p ++ " hasLength " ++ n))
    (hadmitted : limits.Admits (p ++ ".length == " ++ n)) :
    evaluate nesting limits data (p ++ " hasLength " ++ n) =
        evaluate nesting limits data (p ++ ".length == " ++ n) ∧
      evaluate nesting limits data (p ++ " hasLength " ++ n) =
        (read.map fun k => value.hasLength (.int k)).mapError Fault.numeralTooLong := by
  obtain ⟨hne, hword, hitem⟩ := isWord_of_tokenize hp
  obtain ⟨size, hsize, hagree⟩ := Value.exists_follow_length hundefined hnull
  have hlength := Value.resolve_length hdata hne hundefined hvalue hdepth
  rw [hsize] at hlength
  have hpiece : IsPiece p.toList := isPiece_iff.2 (.inr ⟨hne, hword⟩)
  have hlonger : IsPiece (p.toList ++ ".length".toList) := by
    refine isPiece_iff.2 (.inr ⟨List.append_ne_nil_of_left_ne_nil hne _, hword.append ?_⟩)
    show IsWord ['.', 'l', 'e', 'n', 'g', 't', 'h']
    exact ⟨rfl, rfl, rfl, rfl, rfl, rfl, rfl, trivial⟩
  have hleft : evaluate nesting limits data (p ++ " hasLength " ++ n) =
      (read.map fun k => value.hasLength (.int k)).mapError Fault.numeralTooLong := by
    have htext : (p ++ " hasLength " ++ n).toList = spread [(p.toList, [' ']),
        (BinaryOperator.hasLength.symbol.toList, [' ']), (n.toList, [])] := by
      simp [spread, BinaryOperator.symbol]
    exact evaluate_between hadmits htext hpiece hitem hn hvalue fun k => rfl
  have hright : evaluate nesting limits data (p ++ ".length == " ++ n) =
      (read.map fun k => value.hasLength (.int k)).mapError Fault.numeralTooLong := by
    have htext : (p ++ ".length == " ++ n).toList = spread [(p.toList ++ ".length".toList, [' ']),
        (BinaryOperator.equal.symbol.toList, [' ']), (n.toList, [])] := by
      simp [spread, BinaryOperator.symbol]
    have happly : ∀ k, BinaryOperator.equal.apply nesting size (.int k) =
        .ok (value.hasLength (.int k)) := fun k => congrArg Except.ok (hagree (.int k)).symm
    exact evaluate_between hadmitted htext hlonger (Token.Item.ofPiece_length p.toList) hn hlength
      happly
  exact ⟨hleft.trans hright.symm, hleft⟩

/-- An object in an array has the size that it says. -/
theorem evaluate_hasLength_object :
    let value : Value := .object 2 [(Text.ofString "length", .int 3)]
    let data : Value := .object 0 [(Text.ofString "a", .array 1 [value])]
    data.HasPlainNames ∧ tokenize .standard "a[0]" = .ok [⟨.path "a[0]", "a[0]", 0⟩] ∧
      data.resolve "a[0]".toList (some Limits.standard.maxPathDepth) = .ok value ∧
        value ≠ .undefined ∧ value ≠ .null ∧
          (Path.segments "a[0]".toList).length < Limits.standard.maxPathDepth ∧
            readNumeral? "+3".toList = some (.ok 3) ∧
              Limits.standard.Admits "a[0] hasLength +3" ∧
                Limits.standard.Admits "a[0].length == +3" ∧
                  evaluate 1000 .standard data "a[0] hasLength +3" = .ok (.bool true) ∧
                    evaluate 1000 .standard data "a[0].length == +3" = .ok (.bool true) := by
  intro value data
  have hplain : ∀ c ∈ "length".toList, Path.isSeparator c = false := by simp [Path.isSeparator]
  have ha : ∀ c ∈ ['a'], Path.isSeparator c = false := List.forall_mem_singleton.2 rfl
  have hitem : value.HasPlainNames := .singleton (Value.isPlainName_ofChars.2 hplain) (.number _)
  have hdata : data.HasPlainNames :=
    .singleton (Value.isPlainName_ofChars.2 ha) (.array (List.forall_mem_singleton.2 hitem))
  have hp : tokenize .standard "a[0]" = .ok [⟨.path "a[0]", "a[0]", 0⟩] := rfl
  have hvalue : data.resolve "a[0]".toList (some Limits.standard.maxPathDepth) = .ok value := rfl
  have hundefined : value ≠ .undefined := nofun
  have hnull : value ≠ .null := nofun
  have hdepth : (Path.segments "a[0]".toList).length < Limits.standard.maxPathDepth := by decide
  have hn : readNumeral? "+3".toList = some (.ok 3) := rfl
  have hadmits : Limits.standard.Admits "a[0] hasLength +3" := ⟨rfl, rfl⟩
  have hadmitted : Limits.standard.Admits "a[0].length == +3" := ⟨rfl, rfl⟩
  obtain ⟨hagree, hlength⟩ := evaluate_hasLength 1000 hdata hp hvalue hundefined hnull hdepth hn
    hadmits hadmitted
  have hequal : Number.equal (.int 3) (.int 3) = true := by decide +kernel
  have htrue : value.hasLength (.int 3) = .bool true := congrArg Value.bool hequal
  have hleft : evaluate 1000 .standard data "a[0] hasLength +3" = .ok (.bool true) :=
    hlength.trans (congrArg Except.ok htrue)
  exact ⟨hdata, hp, hvalue, hundefined, hnull, hdepth, hn, hadmits, hadmitted, hleft,
    hagree.symm.trans hleft⟩

end Criteria
