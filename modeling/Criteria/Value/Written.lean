import Criteria.Number.Decimal
import Criteria.Text.Numeral
import Criteria.Text.Quoted
import Criteria.Value.Basic

/-!
# Written form of values

How values are shown in lists of values: texts between quotes, numbers in full, arrays between
brackets, and members of objects between braces. A value that holds an integer with too many digits
has no written form.
-/

namespace Criteria

/-- The words for the values that are neither numbers nor made of other values. -/
structure Wording where
  undefined : String
  null : String
  yes : String
  no : String

/-- The words that are used where nothing else is said. -/
def Wording.standard : Wording := ⟨"undefined", "None", "True", "False"⟩

/-- The text of a number, unless it is an integer with too many digits. -/
def Number.text? : Number → Option String
  | .int n => Numeral.write? n
  | .double x => some (Layout.standard.text x)

/-- Parts between an opening and a closing mark, with commas between them. -/
def enclosed (opening closing : String) (parts : List String) : String :=
  opening ++ String.intercalate ", " parts ++ closing

namespace Value

mutual

/-- The written form of a value. -/
def written? (wording : Wording) : Value → Option String
  | .undefined => some wording.undefined
  | .null => some wording.null
  | .bool b => some (if b then wording.yes else wording.no)
  | .number n => n.text?
  | .str text => some (Text.quoted text)
  | .array _ items => (writtenItems? wording items).map (enclosed "[" "]")
  | .object _ members => (writtenMembers? wording members).map (enclosed "\x7b" "\x7d")

/-- The written forms of items. -/
def writtenItems? (wording : Wording) : List Value → Option (List String)
  | [] => some []
  | item :: items => do
    let first ← written? wording item
    return first :: (← writtenItems? wording items)

/-- The written forms of members. -/
def writtenMembers? (wording : Wording) : List (Text × Value) → Option (List String)
  | [] => some []
  | (name, value) :: members => do
    let first ← written? wording value
    return (Text.quoted name ++ ": " ++ first) :: (← writtenMembers? wording members)

end

end Value

end Criteria
