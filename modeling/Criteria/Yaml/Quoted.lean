import Criteria.Text.CodePoint
import Criteria.Text.Hexadecimal
import Criteria.Yaml.Fault
import Criteria.Yaml.Plain

/-!
# Quoted scalars

Between single quotes a quote is written twice and nothing else is special. Between double quotes a
backslash begins an escape. In both a line end counts as in plain scalars, and a mark between
documents is refused.
-/

namespace Criteria.Yaml

/-- The two kinds of quoted scalars. -/
inductive QuoteStyle
  | single
  | double
  deriving DecidableEq

/-- The quote of a style. -/
def QuoteStyle.mark : QuoteStyle → Char
  | .single => '\x27'
  | .double => '"'

/-- The characters that an escape of one character stands for. -/
def escapedChar? (c : Char) : Option Char :=
  [('0', '\x00'), ('a', '\x07'), ('b', '\x08'), ('t', '\t'), ('\t', '\t'), ('n', '\n'),
   ('v', '\x0b'), ('f', '\x0c'), ('r', '\r'), ('e', '\x1b'), (' ', ' '), ('"', '"'), ('\\', '\\'),
   ('/', '/'), ('N', '\x85'), ('_', '\xa0'), ('L', '\u2028'), ('P', '\u2029')].lookup c

/-- The number of hexadecimal digits after the letter of a numeric escape. -/
def escapeWidth? (c : Char) : Option Nat := [('x', 2), ('u', 4), ('U', 8)].lookup c

/-- The line ends after a first one inside a quoted scalar, unless a mark between documents follows
one. -/
def quotedBreaks? : Nat → Cursor → Option (List Char × Cursor)
  | 0, _ => none
  | fuel + 1, cursor =>
    if cursor.atMark then none
    else
      let after := cursor.skipWhile isSpaceOrTab
      match after.takeBreak? with
      | none => some ([], after)
      | some (c, next) => do
        let (more, last) ← quotedBreaks? fuel next
        return (c :: more, last)

/-- The greatest number of 31 bits. -/
def greatestNumber : Nat := Nat.pow 2 31 - 1

/-- The code point that the digits of a numeric escape stand for. -/
def readCodePoint (digits : List Char) : Except Fault CodePoint := do
  let n ← wellFormed (Hexadecimal.number? digits)
  if greatestNumber < n then .error .escapeTooLarge else wellFormed (CodePoint.ofNat? n)

/-- Read an escape after its backslash: what it stands for, and the place after it. -/
def readEscape (cursor : Cursor) : Except Fault (Text × Cursor) :=
  match cursor.takeBreak?, cursor.rest with
  | some (_, next), _ => do
    let (breaks, last) ← wellFormed (quotedBreaks? (next.rest.length + 1) next)
    return (Text.ofChars breaks, last)
  | none, [] => .error .malformed
  | none, c :: rest =>
    match escapedChar? c, escapeWidth? c with
    | some d, _ => .ok ([.scalar d], cursor.next)
    | none, some width => do
      let digits := rest.take width
      if digits.length < width then .error .malformed
      return ([← readCodePoint digits], cursor.advance (width + 1))
    | none, none => .error .malformed

/-- Read the spaces and line ends at a place inside a quoted scalar: what is kept of them, and the
place after them. -/
def readQuotedGap? (cursor : Cursor) : Option (List Char × Cursor) :=
  let spaces := cursor.rest.takeWhile isSpaceOrTab
  let after := cursor.skipWhile isSpaceOrTab
  match after.takeBreak? with
  | none => some (spaces, after)
  | some (first, next) => do
    let (more, last) ← quotedBreaks? (next.rest.length + 1) next
    return (foldBreaks first more, last)

/-- Read a quoted scalar after its opening quote. -/
def quotedFrom (style : QuoteStyle) : Nat → Cursor → Except Fault (Text × Cursor)
  | 0, _ => .error .malformed
  | fuel + 1, cursor =>
    match cursor.rest with
    | [] => .error .malformed
    | c :: rest =>
      if isGap c then do
        let (gap, after) ← wellFormed (readQuotedGap? cursor)
        let (text, last) ← quotedFrom style fuel after
        return (Text.ofChars gap ++ text, last)
      else if c = style.mark ∧ ¬(style = .single ∧ rest.head? = some c) then .ok ([], cursor.next)
      else do
        let (part, after) ←
          if c = style.mark then .ok ([.scalar c], cursor.advance 2)
          else if style = .double ∧ c = '\\' then readEscape cursor.next
          else .ok ([.scalar c], cursor.next)
        let (text, last) ← quotedFrom style fuel after
        return (part ++ text, last)

/-- Read a quoted scalar; the place is that of its opening quote. -/
def readQuoted (style : QuoteStyle) (cursor : Cursor) : Except Fault (Text × Cursor) :=
  quotedFrom style (cursor.rest.length + 1) cursor.next

end Criteria.Yaml
