import Criteria.Prepared.Document
import Criteria.Yaml.Resolve

/-!
# The standard formats

A reader of YAML text and a validator of documents that can be run. The reader knows no aliases, no
merge keys and no tag but `!`; text with any of these is malformed to it. Results on loading are stated
for all formats, with what they rely on.

* `Validator.readText` reads the names and texts, and anything that counts as no text is a problem;
* `Validator.allProblems` collects the problems of a document; a surrogate in a key beside the
  conditions hides all others;
* `Validator.validate` finds the conditions of a document, or its problems;
* `Formats.standard` is this validator with the reader of YAML text.
-/

namespace Criteria

namespace Validator

/-- Read a datum as a text, or say what kind of problem it is. An integer that has too many digits to
be written is a fault of another kind. -/
def readText (datum : Datum) : Except ValidatorFault (Except Problem.Kind Text) :=
  match datum.text?, datum with
  | some text, _ => .ok (.ok text)
  | none, .scalar (.number _) => .error (.foreign Numeral.writtenTooLongMessage)
  | none, .scalar (.bytes _) => .ok (.error .notUnicode)
  | none, _ => .ok (.error .notText)

/-! ### Locations -/

/-- How a number is called that has no written form. -/
def unwritableLabel : String := "<unprintable int object>"

/-- A byte between quotes of a kind. -/
def spelledByte (quote : Char) (byte : Nat) : String :=
  let c := Char.ofNat byte
  if c = quote ∨ c = '\\' then String.ofList ['\\', c]
  else if c = '\t' then "\\t"
  else if c = '\n' then "\\n"
  else if c = '\r' then "\\r"
  else if byte < 0x20 ∨ 0x7F ≤ byte then "\\x" ++ String.ofList (Hexadecimal.write 2 byte)
  else c.toString

/-- Bytes between quotes. -/
def spelledBytes (bytes : List Nat) : String :=
  let quote := if bytes.contains '\''.toNat && !bytes.contains '"'.toNat then '"' else '\''
  "b" ++ quote.toString ++ String.join (bytes.map (spelledByte quote)) ++ quote.toString

/-- How a key is called in the location of a problem. -/
def label : Scalar → String
  | .text t | .moment t => t.legible
  | .null => Wording.standard.null
  | .bool b => if b then "1" else "0"
  | .number n => n.text?.getD unwritableLabel
  | .bytes bytes => spelledBytes bytes

/-- The part of a location that says that the key itself is wrong. -/
def keyMark : String := "[key]"

/-! ### Entries -/

/-- The problem at a location, if there is one. -/
def problemsAt (location : List String) : Except Problem.Kind Text → List Problem
  | .ok _ => []
  | .error kind => [⟨location, kind⟩]

/-- Read one entry: its name and text, or what is wrong with it. -/
def checkEntry (key : Scalar) (datum : Datum) :
    Except ValidatorFault (List (Text × Text) × List Problem) := do
  let name ← readText (.scalar key)
  let text ← readText datum
  let place := [label conditionsKey, label key]
  match name, text with
  | .ok name, .ok text => return ([(name, text)], [])
  | _, _ => return ([], problemsAt (place ++ [keyMark]) name ++ problemsAt place text)

/-- Read entries in their order. -/
def checkEntries : Entries → Except ValidatorFault (List (Text × Text) × List Problem)
  | [] => .ok ([], [])
  | (key, datum) :: entries => do
    let (found, problems) ← checkEntry key datum
    let (foundLater, problemsLater) ← checkEntries entries
    return (found ++ foundLater, problems ++ problemsLater)

/-- Read what stands under the key for conditions; without it there are none. -/
def checkConditions (document : Entries) :
    Except ValidatorFault (List (Text × Text) × List Problem) :=
  match document.lookup conditionsKey with
  | some (.mapping entries) => checkEntries entries
  | some _ => .ok ([], [⟨[label conditionsKey], .notMapping⟩])
  | none => .ok ([], [])

/-! ### Documents -/

/-- The problem with a key that stands beside the conditions. -/
def otherProblem : Scalar → Problem
  | .text t => ⟨[t.legible], .unexpected⟩
  | key => ⟨[label key], .badKey⟩

/-- Whether a scalar is a text that holds a surrogate. -/
def hasSurrogate : Scalar → Bool
  | .text t => t.hasSurrogate
  | _ => false

/-- The keys that stand beside the conditions. -/
def others (document : Entries) : List Scalar :=
  (document.map Prod.fst).filter (· != conditionsKey)

/-- The problems of a document, given those of its conditions and the keys that stand beside them.
A surrogate in one of these keys ends the search, and what was found before is not told. -/
def allProblems (found : List Problem) (others : List Scalar) : List Problem :=
  if others.any hasSurrogate then [⟨[], .notUnicode⟩] else found ++ others.map otherProblem

/-- The words for problems. -/
def summary (problems : List Problem) : String :=
  String.intercalate "\n" (problems.map fun problem =>
    String.intercalate "." problem.location ++ ": " ++ problem.kind.name)

/-- Find the conditions of a document. -/
def validate (document : Entries) : Except ValidatorFault Dictionary := do
  let (found, problems) ← checkConditions document
  let all := allProblems problems (others document)
  if all.isEmpty then return .ofAssignments found else .error (.invalid (summary all) all)

end Validator

/-- What a fault of YAML text is to the one who asked for reading it. -/
def Yaml.Fault.toReader (fault : Yaml.Fault) : ReaderFault :=
  match fault with
  | .malformed => .refused fault.message
  | .escapeTooLarge | .weightTooLarge => .foreign fault.message

/-- The formats with the reader and the validator above. -/
def Formats.standard : Formats where
  readYaml text := (Yaml.read text).mapError Yaml.Fault.toReader
  validate := Validator.validate

end Criteria
