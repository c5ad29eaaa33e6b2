import Criteria.Yaml.Cursor

/-!
# Plain scalars

A plain scalar is written without quotes. Its words may be spread over several lines; a single line
end between two of them counts as a space, and of more line ends the first one is left out.
-/

namespace Criteria.Yaml

/-- Line ends between words: of one only a space is left, of more all but the first, unless the
first is of a kind that is kept. -/
def foldBreaks (first : Char) (more : List Char) : List Char :=
  if first ≠ '\n' then first :: more
  else if more = [] then [' ']
  else more

/-- Whether a character is one of the marks of flow collections. -/
def isFlowMark (c : Char) : Bool :=
  c == ',' || c == '[' || c == ']' || c == '\x7b' || c == '\x7d'

/-- Whether a colon before some characters ends a plain word. -/
def colonEnds (inFlow : Bool) (after : List Char) : Bool :=
  Cursor.endsWord after || (inFlow && after.head?.any isFlowMark)

/-- The characters of a plain word at the beginning of a text. -/
def plainWord (inFlow : Bool) : List Char → List Char
  | [] => []
  | c :: rest =>
    if isGap c || (c == ':' && colonEnds inFlow rest) then []
    else if inFlow && (c == '?' || isFlowMark c) then []
    else c :: plainWord inFlow rest

/-- The line ends among spaces; nothing if a mark between documents follows one of them. -/
def emptyLines : Nat → Cursor → Option (List Char) × Cursor
  | 0, cursor => (some [], cursor)
  | fuel + 1, cursor =>
    if cursor.peek = some ' ' then emptyLines fuel cursor.next
    else
      match cursor.takeBreak? with
      | none => (some [], cursor)
      | some (c, after) =>
        if after.atMark then (none, after)
        else
          let (breaks, last) := emptyLines fuel after
          (breaks.map (c :: ·), last)

/-- What stands between two plain words. -/
structure PlainGap where
  /-- What is kept of it; nothing if the scalar has to end. -/
  text : List Char
  /-- The place after it. -/
  after : Cursor
  /-- Whether it holds a line end. -/
  newLine : Bool

/-- The gap at a place. -/
def PlainGap.read (cursor : Cursor) : PlainGap :=
  let spaces := cursor.rest.takeWhile (· == ' ')
  let after := cursor.skipSpaces
  match after.takeBreak? with
  | none => ⟨spaces, after, false⟩
  | some (first, next) =>
    if next.atMark then ⟨[], next, true⟩
    else
      match emptyLines (next.rest.length + 1) next with
      | (none, last) => ⟨[], last, true⟩
      | (some more, last) => ⟨foldBreaks first more, last, true⟩

/-- Read the words of a plain scalar from a place on: its text, the place after it, and whether the
last gap that was passed holds a line end. In block context the words have to stand right of
`indent`. -/
def plainFrom (inFlow : Bool) (indent : Int) :
    Nat → Bool → Cursor → List Char × Cursor × Bool
  | 0, newLine, cursor => ([], cursor, newLine)
  | fuel + 1, newLine, cursor =>
    let word := if cursor.peek = some '#' then [] else plainWord inFlow cursor.rest
    if word = [] then ([], cursor, newLine)
    else
      let gap := PlainGap.read (cursor.advance word.length)
      if gap.text = [] ∨ (!inFlow && gap.after.column ≤ indent) then (word, gap.after, gap.newLine)
      else
        let (more, last, newLine) := plainFrom inFlow indent fuel gap.newLine gap.after
        if more = [] then (word, last, newLine) else (word ++ gap.text ++ more, last, newLine)

/-- Read a plain scalar. -/
def readPlain (inFlow : Bool) (indent : Int) (cursor : Cursor) : List Char × Cursor × Bool :=
  plainFrom inFlow indent (cursor.rest.length + 1) false cursor

end Criteria.Yaml
