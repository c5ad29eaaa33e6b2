import Criteria.Fault
import Criteria.Text.Word

/-!
# Paths into values

A path names a place inside a value. It is cut into segments at dots, brackets and quotes, so
`a.b[0].c` and `a['b'].0.c` are the same segments `a`, `b`, `0`, `c`.

* A name that is equal to the whole path is found first.
* An object is entered by a name, an array by an index in ASCII digits; `length` is the number of
  items of an array and of code points of a text. Whatever is not there is `undefined`.
* `Value.resolve` refuses a path with more segments than allowed, and an index that is too long to
  be read.
-/

namespace Criteria

namespace Path

/-- Whether a character separates segments. -/
def isSeparator (c : Char) : Bool :=
  c == '.' || c == '[' || c == ']' || c == '\x27' || c == '"'

/-- The segments of a path of which a segment has been read so far in reverse. -/
def segmentsAfter (reversed : List Char) : List Char → List (List Char)
  | [] => closeWord reversed []
  | c :: rest =>
    if isSeparator c then closeWord reversed (segmentsAfter [] rest)
    else segmentsAfter (c :: reversed) rest

/-- The segments of a path: its longest stretches without separators. -/
def segments (path : List Char) : List (List Char) := segmentsAfter [] path

/-- The segment that names a size. -/
def lengthSegment : List Char := "length".toList

end Path

namespace Value

/-- The value that one segment leads to. -/
def follow (current : Value) (segment : List Char) : Except Fault Value :=
  match current with
  | .object _ members => .ok ((Members.get? members (Text.ofChars segment)).getD .undefined)
  | .array _ items =>
    if segment = Path.lengthSegment then .ok (.int items.length)
    else if segment.all Char.isDigit then
      match Numeral.readDigits segment with
      | .ok index => .ok ((items[index]?).getD .undefined)
      | .error e => .error (.numeralTooLong e)
    else .ok .undefined
  | .str text =>
    if segment = Path.lengthSegment then .ok (.int text.length) else .ok .undefined
  | _ => .ok .undefined

/-- The value that segments lead to, one after the other. -/
def followAll (current : Value) : List (List Char) → Except Fault Value
  | [] => .ok current
  | segment :: segments => do followAll (← follow current segment) segments

/-- The value that the segments of a path lead to, if there are no more of them than allowed. A path
without segments leads nowhere. -/
def resolveSegments (data : Value) (segments : List (List Char)) (maxDepth : Option Int) :
    Except Fault Value :=
  if segments.isEmpty then .ok .undefined
  else
    match maxDepth with
    | none => followAll data segments
    | some limit =>
      if limit < segments.length then .error (.limitExceeded .pathDepth limit segments.length)
      else followAll data segments

/-- The member of an object under a name; other values have no members. -/
def member? : Value → Text → Option Value
  | .object _ members, name => Members.get? members name
  | _, _ => none

/-- The value at a path. -/
def resolve (data : Value) (path : List Char) (maxDepth : Option Int) : Except Fault Value :=
  match data.member? (Text.ofChars path) with
  | some value => .ok value
  | none => resolveSegments data (Path.segments path) maxDepth

end Value

end Criteria
