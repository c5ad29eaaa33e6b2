/-!
# Names of files

The relative name of a file is a list of parts between slashes. Empty parts and parts that are a
single point lead nowhere and are left out; a part of two points leads up.
-/

namespace Criteria.FileName

/-- The parts of a name between slashes. -/
def parts (name : List Char) : List (List Char) :=
  (name.splitOn '/').filter fun part => !part.isEmpty && part != ['.']

/-- The slashes at the beginning of a name: exactly two of them stay two, more count as one. -/
def root (name : List Char) : List Char :=
  match (name.takeWhile (· == '/')).length with
  | 0 => []
  | 2 => ['/', '/']
  | _ => ['/']

/-- A name without the parts that lead nowhere. -/
def simplify (name : List Char) : List Char :=
  let simple := root name ++ ['/'].intercalate (parts name)
  if simple.isEmpty then ['.'] else simple

/-- Whether no part leads down, so that a name stands for a directory wherever it is looked up. -/
def leadsUp (name : List Char) : Bool := (parts name).all (· == ['.', '.'])

/-- The size of a name in bytes of UTF-8. -/
def byteSize (name : List Char) : Nat := (String.ofList name).utf8ByteSize

/-- The size that no name reaches. -/
def sizeBound : Nat := 4096

/-- The size that no part exceeds. -/
def partLimit : Nat := 255

/-- Whether a name that stands for no file is too long, as a whole or in its first part that leads
down; the parts behind that one are not looked up. -/
def isTooLong (name : List Char) : Bool :=
  sizeBound ≤ byteSize (simplify name) ||
    ((parts name).find? (· != ['.', '.'])).any fun part => partLimit < byteSize part

/-- The suffix of a part: all from its last point on, unless the part begins or ends there. -/
def suffixOfPart (part : List Char) : List Char :=
  let tail := part.reverse.takeWhile (· != '.')
  if tail.isEmpty || part.length ≤ tail.length + 1 then [] else '.' :: tail.reverse

/-- The suffix of a name: that of its last part. -/
def suffix (name : List Char) : List Char := suffixOfPart ((parts name).getLastD [])

/-- Whether a name has the suffix of a JSON file, in capital or small letters. -/
def isJson (name : List Char) : Bool := (suffix name).map Char.toLower == ".json".toList

example : isJson "dir/rules.JSON".toList = true := by decide

example : isJson ".json".toList = false := by decide

example : simplify "./a//b".toList = "a/b".toList := by decide

example : simplify "//a/".toList = "//a".toList := by decide

end Criteria.FileName
