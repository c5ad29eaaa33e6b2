import Criteria.Assignment
import Criteria.Json.Scalar

/-!
# Reading JSON text

The grammar of RFC 8259, and the names of infinities and of not a number beside it. Of several
members of one name the last one counts.

* `readItems` and `readMembers` read what stands between brackets and braces, with a reader for the
  values inside;
* `readValue` reads one value that is nested at most as deeply as allowed;
* `read` reads a whole text. The grammar does not say how deeply arrays and objects may be nested, but
  whoever reads has a bound, so that is a parameter.
-/

namespace Criteria.Json

/-- A reader of the value at a place. -/
abbrev ValueReader := Cursor → Except Fault (Value × Cursor)

/-- Read items and the bracket that ends them; at most `count` more of them. -/
def readItems (readOne : ValueReader) : Nat → Cursor → Except Fault (List Value × Cursor)
  | 0, cursor => cursor.fail .value
  | count + 1, cursor => do
    let (item, after) ← readOne cursor
    let after := after.skipSpaces
    match after.skip? ']', after.skip? ',' with
    | some ended, _ => return ([item], ended)
    | none, some next =>
      let (items, ended) ← readItems readOne count next.skipSpaces
      return (item :: items, ended)
    | none, none => after.fail .comma

/-- Read the name of a member and the colon after it. -/
def readName (cursor : Cursor) : Except Fault (Text × Cursor) := do
  if (cursor.skip? '"').isNone then cursor.fail .name
  let (name, after) ← readString cursor
  match after.skipSpaces.skip? ':' with
  | some next => return (name, next.skipSpaces)
  | none => after.skipSpaces.fail .colon

/-- Read members and the brace that ends them; at most `count` more of them. -/
def readMembers (readOne : ValueReader) : Nat → Cursor → Except Fault (Members × Cursor)
  | 0, cursor => cursor.fail .name
  | count + 1, cursor => do
    let (name, place) ← readName cursor
    let (value, after) ← readOne place
    let after := after.skipSpaces
    match after.skip? '\x7d', after.skip? ',' with
    | some ended, _ => return ([(name, value)], ended)
    | none, some next =>
      let (members, ended) ← readMembers readOne count next.skipSpaces
      return ((name, value) :: members, ended)
    | none, none => after.fail .comma

/-- Read an array after its opening bracket. Its place is its identity. -/
def readArray (readOne : ValueReader) (cursor : Cursor) : Except Fault (Value × Cursor) :=
  match cursor.skip? ']' with
  | some ended => .ok (.array cursor.index [], ended)
  | none => do
    let (items, ended) ← readItems readOne (cursor.rest.length + 1) cursor
    return (.array cursor.index items, ended)

/-- Read an object after its opening brace. Its place is its identity. -/
def readObject (readOne : ValueReader) (cursor : Cursor) : Except Fault (Value × Cursor) :=
  match cursor.skip? '\x7d' with
  | some ended => .ok (.object cursor.index [], ended)
  | none => do
    let (members, ended) ← readMembers readOne (cursor.rest.length + 1) cursor
    return (.object cursor.index (assignAll members), ended)

/-- Read the value at a place that is neither an array nor an object. -/
def readScalar (cursor : Cursor) : Except Fault (Value × Cursor) :=
  if (cursor.skip? '"').isSome then do
    let (text, after) ← readString cursor
    return (.str text, after)
  else
    match readWord? cursor, readNumber? cursor with
    | some result, _ => .ok result
    | none, some result => do
      let (number, after) ← result
      return (.number number, after)
    | none, none => cursor.fail .value

/-- Read the value at a place, with arrays and objects nested at most as deeply as `depth`. -/
def readValue : Nat → ValueReader
  | 0, cursor =>
    if (cursor.skip? '[').isSome then .error (.tooDeep .array)
    else if (cursor.skip? '\x7b').isSome then .error (.tooDeep .object)
    else readScalar cursor
  | depth + 1, cursor =>
    match cursor.skip? '[', cursor.skip? '\x7b' with
    | some next, _ => readArray (readValue depth) next.skipSpaces
    | none, some next => readObject (readValue depth) next.skipSpaces
    | none, none => readScalar cursor

/-- The code point that marks the byte order. -/
def byteOrderMark : CodePoint := .scalar (Char.ofNat 0xFEFF)

/-- Read a text as JSON, with arrays and objects inside at most `nesting` others. -/
def read (nesting : Nat) (t : Text) : Except Fault Value := do
  if t.head? = some byteOrderMark then .error (.malformed .byteOrderMark 0)
  let (value, after) ← readValue (nesting + 1) (Cursor.mk 0 t).skipSpaces
  if after.skipSpaces.rest.isEmpty then return value
  else after.skipSpaces.fail .leftover

end Criteria.Json
