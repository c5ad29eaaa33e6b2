/-!
# Names of fields

A name of a field is a chain of two or more segments with a point between each two. A segment is an
ASCII letter followed by ASCII letters and digits.

`fieldNames` reads a text from left to right and gives every chain that it finds, as long as it
reaches. The text need not be an expression; like an expression it has no lone surrogates.
-/

namespace Criteria

/-- Whether characters begin with a letter. -/
def startsWithLetter : List Char → Bool
  | [] => false
  | c :: _ => c.isAlpha

/-- Put a chain that was read in reverse before the names that follow it, unless it is a single
segment. -/
def closeChain (reversed : List Char) (linked : Bool) (names : List (List Char)) :
    List (List Char) :=
  if linked then reversed.reverse :: names else names

/-- The names in a text of which a chain has been read so far in reverse; `linked` says whether the
chain has a point. -/
def fieldNamesAfter (reversed : List Char) (linked : Bool) : List Char → List (List Char)
  | [] => closeChain reversed linked []
  | c :: rest =>
    if reversed.isEmpty then
      if c.isAlpha then fieldNamesAfter [c] false rest else fieldNamesAfter [] false rest
    else if c.isAlphanum then fieldNamesAfter (c :: reversed) linked rest
    else if c == '.' && startsWithLetter rest then fieldNamesAfter (c :: reversed) true rest
    else closeChain reversed linked (fieldNamesAfter [] false rest)

/-- The names of fields in a text, from left to right. -/
def fieldNames (text : List Char) : List (List Char) := fieldNamesAfter [] false text

end Criteria
