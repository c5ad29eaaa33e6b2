import Criteria.Assignment
import Criteria.Datum
import Criteria.Text.Utf8
import Criteria.Value.Written

/-!
# Documents of prepared conditions

A document is a mapping with the one key `conditions`, under which texts stand under names. YAML
text is read and documents are validated by others: `Formats` is what loading takes from them.

* `Dictionary`: texts under names, each name once;
* `Problem`: what may be wrong with a document;
* `Formats`: a reader of YAML text and a validator of documents, each with its faults;
* `Datum.text?`: the text that a datum counts as;
* `documentOf`: the document of a mapping.
-/

namespace Criteria

/-- Texts under names, each name once, in their order. -/
structure Dictionary where
  entries : List (Text × Text)
  nodup : (entries.map Prod.fst).Nodup
  deriving DecidableEq

/-- The dictionary that assignments give. -/
def Dictionary.ofAssignments (written : List (Text × Text)) : Dictionary :=
  ⟨assignAll written, nodup_assignAll written⟩

/-! ### Problems -/

/-- The kinds of problems with a document. -/
inductive Problem.Kind
  | notText
  /-- Bytes that are no UTF-8, or a surrogate in a key. -/
  | notUnicode
  | notMapping
  | unexpected
  | badKey
  deriving DecidableEq

/-- The name of a kind of problem. -/
def Problem.Kind.name : Problem.Kind → String
  | .notText => "string_type"
  | .notUnicode => "string_unicode"
  | .notMapping => "dict_type"
  | .unexpected => "extra_forbidden"
  | .badKey => "invalid_key"

/-- A problem with an entry of a document: where it is, by keys from the outside in, and of what
kind. -/
structure Problem where
  location : List String
  kind : Problem.Kind
  deriving DecidableEq

/-! ### Formats -/

/-- How a reader of YAML text fails: it refuses the text, or a fault comes up that is none of the
text's format. -/
inductive ReaderFault
  | refused (message : String)
  | foreign (message : String)
  deriving DecidableEq

/-- How a validator fails: the document has problems, or a fault comes up that is none of it. -/
inductive ValidatorFault
  | invalid (message : String) (problems : List Problem)
  | foreign (message : String)
  deriving DecidableEq

/-- What loading takes from others: a reader of YAML text, and a validator that finds the conditions
of a document. -/
structure Formats where
  readYaml : List Char → Except ReaderFault Datum
  validate : Entries → Except ValidatorFault Dictionary

/-! ### Texts -/

/-- The text that a scalar counts as: a text itself, a number in its written form, bytes in UTF-8. -/
def Scalar.text? : Scalar → Option Text
  | .text t => some t
  | .number n => n.text?.map Text.ofString
  | .bytes raw => (Utf8.decode raw).toOption.map Text.ofChars
  | .null | .bool _ | .moment _ => none

/-- The text that a datum counts as. -/
def Datum.text? : Datum → Option Text
  | .scalar s => s.text?
  | .sequence _ | .mapping _ => none

/-! ### Documents -/

/-- The key under which a document holds its conditions. -/
def conditionsKey : Scalar := .text (Text.ofString "conditions")

/-- The document of a mapping: the mapping itself if it has a mapping under the key for conditions,
else the document with nothing but the mapping under this key. -/
def documentOf (entries : Entries) : Entries :=
  match entries.lookup conditionsKey with
  | some (.mapping _) => entries
  | _ => [(conditionsKey, .mapping entries)]

end Criteria
