import Criteria.Value.Basic
import Criteria.Text.Numeral

/-!
# Places and faults in JSON text

* `Cursor` is a place in a text: its index and what follows it;
* `Json.Fault` says why a text is not read: it is malformed at an index, it holds a numeral with too
  many digits, or it is nested too deeply;
* `Json.describe` is the wording for a malformed place, with line and column.
-/

namespace Criteria.Json

/-- What is malformed in a JSON text. -/
inductive Cause
  /-- The text begins with a byte order mark. -/
  | byteOrderMark
  /-- There is no value where one has to stand. -/
  | value
  /-- There is no name where a member has to begin. -/
  | name
  /-- There is no colon after a name. -/
  | colon
  /-- There is neither a comma nor an end after a value. -/
  | comma
  /-- Something follows the value of the text. -/
  | leftover
  /-- A control character stands in a string. -/
  | controlCharacter
  /-- A backslash is followed by a character that it does not escape. -/
  | escape
  /-- A numeric escape has no four hexadecimal digits, or nothing follows them. -/
  | numericEscape
  /-- A string has no end. -/
  | openString
  deriving DecidableEq

/-- The words for what is malformed. -/
def Cause.message : Cause → String
  | .byteOrderMark => "Unexpected UTF-8 BOM (decode using utf-8-sig)"
  | .value => "Expecting value"
  | .name => "Expecting property name enclosed in double quotes"
  | .colon => "Expecting ':' delimiter"
  | .comma => "Expecting ',' delimiter"
  | .leftover => "Extra data"
  | .controlCharacter => "Invalid control character at"
  | .escape => "Invalid \\escape"
  | .numericEscape => "Invalid \\uXXXX escape"
  | .openString => "Unterminated string starting at"

/-- Why a text is not read as JSON. -/
inductive Fault
  | malformed (cause : Cause) (index : Nat)
  | numeralTooLong (numeral : Numeral.TooLong)
  /-- Arrays and objects are nested too deeply; the innermost one that was reached has a kind. -/
  | tooDeep (kind : Kind)
  deriving DecidableEq

/-- The number of line ends in a text. -/
def lineEnds (t : Text) : Nat := t.count (.scalar '\n')

/-- The number of code points after the last line end of a text. -/
def lastLineLength (t : Text) : Nat := (t.reverse.takeWhile (· != .scalar '\n')).length

/-- The words for a cause at an index of a text. Lines and columns count from one. -/
def describe (t : Text) (cause : Cause) (index : Nat) : String :=
  let before := t.take index
  s!"{cause.message}: line {lineEnds before + 1} column {lastLineLength before + 1} (char {index})"

/-- The words for a fault of a text. -/
def Fault.message (t : Text) : Fault → String
  | .malformed cause index => describe t cause index
  | .numeralTooLong numeral => numeral.message
  | .tooDeep kind =>
    s!"maximum recursion depth exceeded while decoding a JSON {kind.name} from a unicode string"

/-- A place in a text. -/
structure Cursor where
  index : Nat
  rest : Text

namespace Cursor

/-- The place some code points further. -/
def advance (cursor : Cursor) (count : Nat) : Cursor :=
  ⟨cursor.index + count, cursor.rest.drop count⟩

/-- Whether a code point may stand between the parts of a JSON text. -/
def isSpace (p : CodePoint) : Bool :=
  p == .scalar ' ' || p == .scalar '\t' || p == .scalar '\n' || p == .scalar '\r'

/-- The next place that holds no space. -/
def skipSpaces (cursor : Cursor) : Cursor :=
  cursor.advance (cursor.rest.takeWhile isSpace).length

/-- The place after a given character, if the character stands there. -/
def skip? (cursor : Cursor) (c : Char) : Option Cursor :=
  if cursor.rest.head? = some (.scalar c) then some (cursor.advance 1) else none

/-- A fault at a place. -/
def fail {α : Type} (cursor : Cursor) (cause : Cause) : Except Fault α :=
  .error (.malformed cause cursor.index)

end Cursor

end Criteria.Json
