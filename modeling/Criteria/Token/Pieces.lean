import Criteria.Text.Blank
import Criteria.Text.Word

/-!
# Pieces of an expression

An expression is cut at blanks. Parentheses are pieces of their own, and so is `!` unless `=`
follows it.

Expressions are lists of characters, so they hold no lone surrogates. A `Text` of the data may hold
them.
-/

namespace Criteria

/-- Whether a character is a piece of its own in front of the characters that follow it. -/
def standsAlone (c : Char) (rest : List Char) : Bool :=
  c == '(' || c == ')' || (c == '!' && rest.head? != some '=')

/-- The pieces of an expression of which a piece has been read so far in reverse. -/
def piecesAfter (reversed : List Char) : List Char → List (List Char)
  | [] => closeWord reversed []
  | c :: rest =>
    if standsAlone c rest then closeWord reversed ([c] :: piecesAfter [] rest)
    else if isBlank c then closeWord reversed (piecesAfter [] rest)
    else piecesAfter (c :: reversed) rest

/-- The pieces of an expression. -/
def pieces (expression : List Char) : List (List Char) := piecesAfter [] expression

end Criteria
