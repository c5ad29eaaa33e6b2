import Criteria.Evaluate
import Criteria.Proofs.Machine.Agreement
import Criteria.Proofs.Prepared.Substitution
import Criteria.Proofs.Token

/-!
# A prepared condition is a variable

A condition in parentheses can be put in the place of a name, or its value can be given to the name:
the outcome is the same, but for the places that a fault names (`evaluate_withCondition`). The name
has to be a piece of the expression wherever it is replaced, and to be replaced wherever it is a piece,
and no other path may begin with it.

* `agree_classifyFrom`: pieces that are replaced one by one are classified alike;
* `expands_of_pieces`: where a name is replaced by a group of the value that it has, the tokens are
  expanded, so the machine does what it did before.
-/

namespace Criteria

open Machine Outcome Conditions

variable {scope wider : Scope} {name piece : List Char} {found : List (List Char)}

/-! ### Classifying pieces that are replaced -/

namespace Machine.Expands

theorem append {front back others later : List Token} (hfront : Expands scope wider front others)
    (hback : Expands scope wider back later) :
    Expands scope wider (front ++ back) (others ++ later) := by
  induction hfront with
  | nil => exact hback
  | token hitem hvalue _ ih => exact .token hitem hvalue ih
  | @group token opening closing body tokens others operand value hoperand hvalue hopening hclosing
      hbody _ ih =>
    have hgroup := Expands.group hoperand hvalue hopening hclosing hbody ih
    rw [List.append_assoc]
    exact hgroup

end Machine.Expands

namespace Token

/-- If every piece is classified like the pieces that replace it, all of them are. -/
theorem agree_classifyFrom {replace : List Char → List (List Char)}
    (h : ∀ piece ∈ found, ∀ start first : Nat,
      Outcome.Agree (Expands scope wider) (classifyFrom start [piece])
        (classifyFrom first (replace piece))) (start first : Nat) :
    Outcome.Agree (Expands scope wider) (classifyFrom start found)
      (classifyFrom first (found.flatMap replace)) := by
  induction found generalizing start first with
  | nil => exact .ok .nil
  | cons piece found ih =>
    rw [← List.singleton_append, classifyFrom_append, List.flatMap_append, List.flatMap_singleton,
      classifyFrom_append]
    refine (h piece List.mem_cons_self start first).bind fun tokens others _ _ hfirst => ?_
    refine (ih (fun other hother => h other (List.mem_cons_of_mem _ hother)) _ _).bind
      fun more later _ _ hmore => ?_
    exact .ok (hfirst.append hmore)

theorem classifyFrom_singleton (piece : List Char) (start : Nat) :
    classifyFrom start [piece] =
      Item.ofPiece piece >>= fun item => .ok [⟨item, String.ofList piece, start⟩] := by
  rw [classifyFrom, classify]
  cases Item.ofPiece piece <;> rfl

/-- A piece stays what it is, if it is no path or leads to the same in both scopes. -/
theorem agree_classifyFrom_singleton
    (h : ∀ path, Item.ofPiece piece = .ok (.path path) →
      (Operand.path path).value scope = (Operand.path path).value wider) (start first : Nat) :
    Outcome.Agree (Expands scope wider) (classifyFrom start [piece])
      (classifyFrom first [piece]) := by
  rw [classifyFrom_singleton, classifyFrom_singleton]
  cases hitem : Item.ofPiece piece with
  | error fault => exact .error rfl
  | ok item =>
    refine .ok (.token rfl (fun operand hoperand => ?_) .nil)
    cases item with
    | literal value =>
      cases hoperand
      rfl
    | path path =>
      cases hoperand
      exact h path hitem
    | _ => cases hoperand

/-- A name becomes a group, if the group has the value that the name leads to. -/
theorem agree_classifyFrom_group {path : String} {value : Value} {text : List Char}
    (hpath : Item.ofPiece name = .ok (.path path))
    (hvalue : (Operand.path path).value scope = .ok value)
    (hbody : ∀ first : Nat, ∃ tokens, classifyFrom first (pieces text) = .ok tokens ∧
      evaluateTokens wider tokens = .ok value) (start first : Nat) :
    Outcome.Agree (Expands scope wider) (classifyFrom start [name])
      (classifyFrom first (group text)) := by
  obtain ⟨tokens, htokens, hvalue'⟩ := hbody (first + 1)
  have hopening : Item.ofPiece ['('] = .ok (.opening "(") := rfl
  have hclosing : Item.ofPiece [')'] = .ok .closing := rfl
  have hgroup : group text = [['(']] ++ (pieces text ++ [[')']]) := rfl
  rw [classifyFrom_singleton, hpath, hgroup, classifyFrom_append, classifyFrom_singleton, hopening,
    classifyFrom_append, List.length_singleton, htokens, classifyFrom_singleton, hclosing]
  exact .ok (.group rfl hvalue rfl rfl hvalue' .nil)

end Token

/-! ### A text with a value -/

section Text

variable {nesting : Nat} {limits : Limits} {data value : Value} {body : String}

/-- A text that has a value has tokens with that value, wherever they begin and in whatever
expression. -/
theorem exists_tokens_of_value (h : evaluate nesting limits data body = .ok value)
    (expression : String) (first : Nat) :
    ∃ tokens, Token.classifyFrom first (pieces body.toList) = .ok tokens ∧
      evaluateTokens ⟨nesting, data, limits, expression⟩ tokens = .ok value := by
  obtain ⟨tokens, htokens, hvalue⟩ := bind_eq_ok.1 h
  -- the pieces are all the same, so the tokens are expanded without a group
  have hsame : ∀ piece ∈ pieces body.toList, ∀ start first : Nat,
      Outcome.Agree (Expands ⟨nesting, data, limits, body⟩ ⟨nesting, data, limits, expression⟩)
        (Token.classifyFrom start [piece]) (Token.classifyFrom first [piece]) :=
    fun piece _ => Token.agree_classifyFrom_singleton fun _ _ => rfl
  have hagree := Token.agree_classifyFrom hsame 0 first
  rw [List.flatMap_singleton'] at hagree
  obtain ⟨others, hothers, hexpands⟩ := hagree.exists_ok (classifyFrom_of_tokenize htokens)
  have hindexes := Token.nodup_index_of_classifyFrom hothers
  obtain ⟨result, hresult, rfl⟩ :=
    (agree_evaluateTokens hexpands rfl hindexes).exists_ok hvalue
  exact ⟨others, hothers, hresult⟩

end Text

/-! ### A condition in the place of a name -/

section Condition

variable {nesting : Nat} {limits : Limits} {members : Members} {name body expression : String}
  {value : Value} {i j : Identity}

/-- An expression with a condition in parentheses in the place of a name. -/
def withCondition (name body expression : String) : String :=
  String.ofList (populate [(name.toList, '(' :: body.toList ++ [')'])] expression.toList)

/-- No path in an expression begins with a name, other than the name itself. -/
def IsReserved (name expression : String) : Prop :=
  ∀ piece ∈ pieces expression.toList, ∀ path, Token.Item.ofPiece piece = .ok (.path path) →
    piece ≠ name.toList → (Path.segments piece).head? ≠ some name.toList

theorem pieces_withCondition (hname : IsName name.toList)
    (hseparated : IsSeparated name.toList expression.toList) :
    pieces (withCondition name body expression).toList =
      (pieces expression.toList).flatMap (expand name.toList (group body.toList)) := by
  rw [withCondition, String.toList_ofList]
  exact pieces_substitute hname body.toList hseparated

/-- The tokens with a condition in the place of a name are those with the name, expanded. -/
theorem agree_classifyFrom_withCondition (hname : IsName name.toList)
    (hpath : Token.Item.ofPiece name.toList = .ok (.path name))
    (hbody : evaluate nesting limits (.object i members) body = .ok value)
    (hseparated : IsSeparated name.toList expression.toList)
    (hreserved : IsReserved name expression) :
    Outcome.Agree
      (Expands ⟨nesting, .object j (assign (Text.ofString name) value members), limits, expression⟩
        ⟨nesting, .object i members, limits, withCondition name body expression⟩)
      (Token.classifyFrom 0 (pieces expression.toList))
      (Token.classifyFrom 0 (pieces (withCondition name body expression).toList)) := by
  rw [pieces_withCondition hname hseparated]
  refine Token.agree_classifyFrom (fun piece hmem start first => ?_) 0 0
  by_cases hpiece : piece = name.toList
  · rw [hpiece, expand, if_pos rfl]
    refine Token.agree_classifyFrom_group hpath ?_ (exists_tokens_of_value hbody _) start first
    exact Value.resolve_assign_self name.toList value members _
  · rw [expand, if_neg hpiece]
    refine Token.agree_classifyFrom_singleton (fun path hitem => ?_) start first
    have hhead := hreserved piece hmem path hitem hpiece
    have hpath' : path.toList = piece := by
      rw [Token.eq_of_ofPiece_path hitem, String.toList_ofList]
    show Value.resolve _ path.toList _ = Value.resolve _ path.toList _
    rw [hpath']
    exact Value.resolve_assign hpiece hhead _

end Condition

/-- **A condition in parentheses behaves like a variable.** Let a name be a single piece wherever it
stands, a path, and not the beginning of another path of an expression, and let it stand between
boundaries where it is a piece of the expression. Then putting a condition in parentheses in its place
and giving it the value of the condition lead to the same value, or to the same fault but for the
places that the fault names. -/
theorem evaluate_withCondition (nesting : Nat) (limits : Limits) (i j : Identity) (members : Members)
    (name body expression : String) (value : Value) (hname : IsName name.toList)
    (hpath : Token.Item.ofPiece name.toList = .ok (.path name))
    (hbody : evaluate nesting limits (.object i members) body = .ok value)
    (hseparated : IsSeparated name.toList expression.toList) (hreserved : IsReserved name expression)
    (hexpression : limits.Admits expression)
    (hcondition : limits.Admits (withCondition name body expression)) :
    (evaluate nesting limits (.object i members) (withCondition name body expression)).mapError
        Fault.unplaced =
      (evaluate nesting limits (.object j (assign (Text.ofString name) value members))
        expression).mapError Fault.unplaced := by
  have hclassify := @agree_classifyFrom_withCondition _ _ _ _ _ _ _ i j hname hpath hbody hseparated
    hreserved
  rw [evaluate, evaluate, tokenize_of_admits hexpression, tokenize_of_admits hcondition]
  have hagree := hclassify.bind fun tokens others _ hothers hexpands =>
    agree_evaluateTokens hexpands rfl (Token.nodup_index_of_classifyFrom hothers)
  exact hagree.mapError_eq.symm

/-- In `!n && (n || b)` the condition `a || b` takes the place of `n`. -/
theorem evaluate_withCondition_or :
    let members : Members := [(Text.ofString "a", .bool true)]
    IsName "n".toList ∧ Token.Item.ofPiece "n".toList = .ok (.path "n") ∧
      evaluate 1000 .standard (.object 0 members) "a || b" = .ok (.bool true) ∧
      IsSeparated "n".toList "!n && (n || b)".toList ∧ IsReserved "n" "!n && (n || b)" ∧
      withCondition "n" "a || b" "!n && (n || b)" = "!(a || b) && ((a || b) || b)" ∧
      (evaluate 1000 .standard (.object 0 members) "!(a || b) && ((a || b) || b)").mapError
        Fault.unplaced = .ok (.bool false) := by
  intro members
  have hname : IsName "n".toList :=
    ⟨by decide, List.forall_mem_singleton.2 rfl, by decide, by decide, by decide, by decide⟩
  have hpath : Token.Item.ofPiece "n".toList = .ok (.path "n") := rfl
  have hbody : evaluate 1000 .standard (.object 0 members) "a || b" = .ok (.bool true) := rfl
  have hseparated : IsSeparated "n".toList "!n && (n || b)".toList := by decide
  have hreserved : IsReserved "n" "!n && (n || b)" := by
    have hhead : ∀ piece ∈ pieces "!n && (n || b)".toList, piece ≠ "n".toList →
        (Path.segments piece).head? ≠ some "n".toList := by decide
    exact fun piece hmem _ _ hne => hhead piece hmem hne
  have hcondition : withCondition "n" "a || b" "!n && (n || b)" = "!(a || b) && ((a || b) || b)" :=
    rfl
  have hvalue := evaluate_withCondition 1000 .standard 0 1 members "n" "a || b" "!n && (n || b)" _
    hname hpath hbody hseparated hreserved ⟨rfl, rfl⟩ ⟨rfl, rfl⟩
  have hvariable : evaluate 1000 .standard
      (.object 1 (assign (Text.ofString "n") (.bool true) [(Text.ofString "a", .bool true)]))
      "!n && (n || b)" = .ok (.bool false) := rfl
  rw [hcondition, hvariable] at hvalue
  exact ⟨hname, hpath, hbody, hseparated, hreserved, hcondition, hvalue⟩

/-- The empty name is a path without blanks, parentheses or `!`, but no piece: before the end of
`1 ` the condition is put in, although nothing stands there that the name could give a value to. -/
theorem evaluate_withCondition_empty :
    (∀ c ∈ "".toList, isBlank c = false ∧ c ≠ '(' ∧ c ≠ ')' ∧ c ≠ '!') ∧
      "".toList.head? ≠ some '=' ∧ Token.Item.ofPiece "".toList = .ok (.path "") ∧
      evaluate 1000 .standard (.object 0 []) "2" = .ok (.int 2) ∧
      IsSeparated "".toList "1 ".toList ∧ IsReserved "" "1 " ∧
      Limits.standard.Admits "1 " ∧ Limits.standard.Admits (withCondition "" "2" "1 ") ∧
      withCondition "" "2" "1 " = "1 (2)" ∧
      evaluate 1000 .standard (.object 0 []) "1 (2)" =
        .error (.failed ⟨.notOneValue 2, none, none, some "1 (2)"⟩) ∧
      evaluate 1000 .standard (.object 1 (assign (Text.ofString "") (.int 2) [])) "1 " =
        .ok (.int 1) := by
  have hreserved : IsReserved "" "1 " := by
    have hhead : ∀ piece ∈ pieces "1 ".toList, piece ≠ "".toList →
        (Path.segments piece).head? ≠ some "".toList := by decide
    exact fun piece hmem _ _ hne => hhead piece hmem hne
  exact ⟨by rintro c ⟨⟩, by decide, rfl, rfl, by decide, hreserved, ⟨rfl, rfl⟩, ⟨rfl, rfl⟩, rfl,
    rfl, rfl⟩

end Criteria
