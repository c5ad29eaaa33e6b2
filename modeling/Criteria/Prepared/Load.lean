import Criteria.Diagnostic
import Criteria.Json.Reader
import Criteria.Prepared.Document
import Criteria.Prepared.FileName

/-!
# Loading prepared conditions

Prepared conditions are loaded from the bytes of a file. They are UTF-8; the suffix of the file's
name says whether they are JSON text, and without that suffix they are YAML text.

`load` gives the conditions in the order of the file, or a `LoadFault`; `LoadFault.diagnostic?` is
what is told of the fault. It depends on how deeply JSON text may be nested, and on the formats.
-/

namespace Criteria

/-- What is found under the name of a file. -/
inductive Source
  | missing
  | directory
  | file (bytes : List Nat)

/-- Why prepared conditions are not loaded. -/
inductive LoadFault
  /-- The name holds the character that ends names. -/
  | nulInName
  | nameTooLong
  | missing
  | directory
  | notUtf8 (fault : Utf8.Fault)
  | notJson (text : Text) (fault : Json.Fault)
  | notYaml (fault : ReaderFault)
  | notAMapping
  | notValid (fault : ValidatorFault)
  deriving DecidableEq

/-- The datum of a text in the format that the name of its file asks for. -/
def parseDocument (nesting : Nat) (formats : Formats) (name content : List Char) :
    Except LoadFault Datum :=
  if FileName.isJson name then
    let text := Text.ofChars content
    match Json.read nesting text with
    | .ok value => .ok (Datum.ofValue value)
    | .error fault => .error (.notJson text fault)
  else
    (formats.readYaml content).mapError .notYaml

/-- The mapping that a datum is; an empty text is an empty mapping. -/
def mappingOf : Datum → Except LoadFault Entries
  | .scalar .null => .ok []
  | .mapping entries => .ok entries
  | _ => .error .notAMapping

/-- Why nothing is found under a name. -/
def missingFault (name : List Char) : LoadFault :=
  if FileName.isTooLong name then .nameTooLong
  else if FileName.leadsUp name then .directory
  else .missing

/-- The bytes of a source under a name. -/
def Source.bytes (name : List Char) (source : Source) : Except LoadFault (List Nat) :=
  if name.contains '\x00' then .error .nulInName
  else
    match source with
    | .missing => .error (missingFault name)
    | .directory => .error .directory
    | .file bytes => .ok bytes

/-- Load prepared conditions from a source with a name. -/
def load (nesting : Nat) (formats : Formats) (name : List Char) (source : Source) :
    Except LoadFault Dictionary := do
  let bytes ← source.bytes name
  let content ← (Utf8.decode bytes).mapError .notUtf8
  let datum ← parseDocument nesting formats name (unifyLineEnds content)
  let entries ← mappingOf datum
  (formats.validate (documentOf entries)).mapError .notValid

/-- The reason that is told of a fault of the file itself. -/
def LoadFault.reason? : LoadFault → Option String
  | .nameTooLong => some "[Errno 36] File name too long"
  | .missing => some "[Errno 2] No such file or directory"
  | .directory => some "[Errno 21] Is a directory"
  | _ => none

/-- What is told of a fault of the file with a name. A name that cannot be looked up, bytes that are
no UTF-8, JSON text that is nested too deeply and foreign faults have no diagnostic: they are no
faults of the expression language. -/
def LoadFault.diagnostic? (name : List Char) (fault : LoadFault) : Option Diagnostic :=
  let path := String.ofList (FileName.simplify name)
  let told (message : String) : Option Diagnostic := some (.document message (some path))
  match fault.reason?, fault with
  | some reason, _ =>
    told ("Cannot read prepared conditions: " ++ reason ++ ": " ++ Text.quoted (Text.ofString path))
  | none, .notJson _ (.tooDeep _) => none
  | none, .notJson text fault => told ("Cannot parse prepared conditions: " ++ fault.message text)
  | none, .notYaml (.refused message) => told ("Cannot parse prepared conditions: " ++ message)
  | none, .notAMapping => told "Prepared conditions must be an object"
  | none, .notValid (.invalid message _) => told ("Invalid prepared conditions: " ++ message)
  | none, _ => none

/-- The words for a fault, whether or not it has a diagnostic. -/
def LoadFault.message (name : List Char) (fault : LoadFault) : String :=
  match fault.diagnostic? name, fault with
  | some diagnostic, _ => diagnostic.message
  | none, .nulInName => "embedded null byte"
  | none, .notUtf8 bytes => bytes.message
  | none, .notJson text json => json.message text
  | none, .notYaml (.foreign message) | none, .notValid (.foreign message) => message
  | none, _ => ""

end Criteria
