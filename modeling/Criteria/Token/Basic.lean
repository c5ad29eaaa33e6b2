import Criteria.Limits
import Criteria.Operator.Basic
import Criteria.Token.Literal
import Criteria.Token.Pieces

/-!
# Tokens

* `Token` is a piece of an expression with what it stands for: a parenthesis, an operator, a literal
  value or a path into the data;
* `Token.classify` finds out what a piece stands for: a parenthesis, else an operator, else a
  literal, else a path;
* `tokenize` gives the tokens of an expression within its limits. An expression is a `String`, which
  holds no lone surrogates.
-/

namespace Criteria

/-- What a token stands for. -/
inductive Token.Item
  /-- An opening parenthesis; its symbol says what it costs to pass it. -/
  | opening (symbol : String)
  /-- A closing parenthesis. -/
  | closing
  /-- An operator, by its symbol. -/
  | operator (symbol : String)
  /-- A value. -/
  | literal (value : Value)
  /-- A path into the data. -/
  | path (path : String)

/-- A token: what it stands for, its text, and its place in the expression. -/
structure Token where
  item : Token.Item
  text : String
  index : Int

namespace Token

/-- What a piece stands for. -/
def Item.ofPiece (piece : List Char) : Except Fault Item :=
  let text := String.ofList piece
  if text = "(" then .ok (.opening text)
  else if text = ")" then .ok .closing
  else if (Operator.ofSymbol? text).isSome then .ok (.operator text)
  else
    match Literal.read? piece with
    | some (.ok value) => .ok (.literal value)
    | some (.error numeral) => .error (.numeralTooLong numeral)
    | none => .ok (.path text)

/-- The token of a piece at an index. -/
def classify (piece : List Char) (index : Int) : Except Fault Token := do
  return ⟨← Item.ofPiece piece, String.ofList piece, index⟩

/-- The tokens of pieces that begin at an index. -/
def classifyFrom (index : Nat) : List (List Char) → Except Fault (List Token)
  | [] => .ok []
  | piece :: rest => do
    let token ← classify piece index
    let tokens ← classifyFrom (index + 1) rest
    return token :: tokens

end Token

/-- The tokens of an expression. -/
def tokenize (limits : Limits) (expression : String) : Except Fault (List Token) := do
  limits.checkLength expression
  let found := pieces expression.toList
  limits.checkTokens found.length
  Token.classifyFrom 0 found

end Criteria
