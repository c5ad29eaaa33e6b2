/-!
# Places in YAML text

* the classes of characters that YAML tells apart: `isPrintable`, `isBreak` for line ends, `isGap`
  for what ends a word;
* `Cursor` is a place in a text: what follows it, its index, its line and its column, all counted
  from zero.
-/

namespace Criteria.Yaml

/-- Whether a character may stand in a YAML text at all. -/
def isPrintable (c : Char) : Bool :=
  let n := c.toNat
  n == 0x09 || n == 0x0A || n == 0x0D || (0x20 ≤ n && n ≤ 0x7E) || n == 0x85 ||
    (0xA0 ≤ n && n ≤ 0xD7FF) || (0xE000 ≤ n && n ≤ 0xFFFD) || 0x10000 ≤ n

/-- Whether a character ends a line. -/
def isBreak (c : Char) : Bool :=
  c == '\n' || c == '\r' || c == '\x85' || c == '\u2028' || c == '\u2029'

/-- Whether a character is a space or a tab. -/
def isSpaceOrTab (c : Char) : Bool := c == ' ' || c == '\t'

/-- Whether a character ends a word. -/
def isGap (c : Char) : Bool := isSpaceOrTab c || isBreak c

/-- The character that marks the byte order. -/
def byteOrderMark : Char := Char.ofNat 0xFEFF

/-- A place in a text. -/
structure Cursor where
  rest : List Char
  index : Nat
  line : Nat
  column : Nat

namespace Cursor

/-- The beginning of a text; a byte order mark there is passed over. -/
def start (text : List Char) : Cursor :=
  if text.head? = some byteOrderMark then ⟨text.drop 1, 1, 0, 0⟩ else ⟨text, 0, 0, 0⟩

/-- The character at a place. -/
def peek (cursor : Cursor) : Option Char := cursor.rest.head?

/-- The place after the next character. A byte order mark takes no column. -/
def next (cursor : Cursor) : Cursor :=
  match cursor.rest with
  | [] => cursor
  | c :: rest =>
    if isBreak c && !(c == '\r' && rest.head? == some '\n') then
      ⟨rest, cursor.index + 1, cursor.line + 1, 0⟩
    else
      ⟨rest, cursor.index + 1, cursor.line,
        if c = byteOrderMark then cursor.column else cursor.column + 1⟩

/-- The place some characters further. -/
def advance (cursor : Cursor) : Nat → Cursor
  | 0 => cursor
  | count + 1 => cursor.next.advance count

/-- The place after all characters of a class that follow. -/
def skipWhile (cursor : Cursor) (class? : Char → Bool) : Cursor :=
  cursor.advance (cursor.rest.takeWhile class?).length

/-- The place after spaces. -/
def skipSpaces (cursor : Cursor) : Cursor := cursor.skipWhile (· == ' ')

/-- The place after a comment, if one begins here. -/
def skipComment (cursor : Cursor) : Cursor :=
  if cursor.peek = some '#' then cursor.skipWhile (!isBreak ·) else cursor

/-- The line end at a place, as it is kept in a scalar, and the place after it. -/
def takeBreak? (cursor : Cursor) : Option (Char × Cursor) :=
  match cursor.rest with
  | '\r' :: '\n' :: _ => some ('\n', cursor.advance 2)
  | c :: _ =>
    if c = '\u2028' ∨ c = '\u2029' then some (c, cursor.next)
    else if isBreak c then some ('\n', cursor.next)
    else none
  | [] => none

/-- Whether nothing or a gap stands at the beginning of a text. -/
def endsWord (text : List Char) : Bool := text.head?.all isGap

/-- Whether a mark between documents stands here: three hyphens or three points. -/
def atMark (cursor : Cursor) : Bool :=
  let mark := cursor.rest.take 3
  (mark == ['-', '-', '-'] || mark == ['.', '.', '.']) && endsWord (cursor.rest.drop 3)

/-- The place after the line, where nothing but spaces and a comment may follow. -/
def restOfLine? (cursor : Cursor) : Option Cursor :=
  let ended := cursor.skipSpaces.skipComment
  match ended.takeBreak? with
  | some (_, after) => some after
  | none => if ended.rest.isEmpty then some ended else none

end Cursor

end Criteria.Yaml
