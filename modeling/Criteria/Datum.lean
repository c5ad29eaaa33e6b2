import Criteria.Value.Basic

/-!
# Data of documents

What a document holds, in whichever format it is written: scalars, sequences, and mappings from
scalars. A set counts as a sequence, and so does a list of pairs, of sequences.

* `Scalar.isSameKey` says when two scalars are one key: numbers by their value, `true` counts as one
  and `false` as zero, and not a number is the same key as itself;
* `Datum.ofValue` is the datum of a value that was read from JSON text; identities are not kept.
-/

namespace Criteria

/-- A scalar of a document. -/
inductive Scalar
  | null
  | bool (b : Bool)
  | number (n : Number)
  | text (t : Text)
  /-- A date or a point in time, as it is written. -/
  | moment (written : Text)
  /-- Bytes. -/
  | bytes (raw : List Nat)
  deriving DecidableEq

/-- A datum of a document. -/
inductive Datum
  | scalar (s : Scalar)
  | sequence (items : List Datum)
  | mapping (entries : List (Scalar × Datum))

/-- The entries of a mapping. -/
abbrev Entries := List (Scalar × Datum)

namespace Scalar

/-- The number that a scalar counts as in a key. -/
def keyNumber? : Scalar → Option Number
  | .bool b => some (.int (if b then 1 else 0))
  | .number n => some n
  | _ => none

/-- Whether two scalars are one key. -/
def isSameKey (a b : Scalar) : Bool :=
  match a.keyNumber?, b.keyNumber? with
  | some m, some n => m.equal n || (m.isNaN && n.isNaN)
  | _, _ => a == b

end Scalar

namespace Datum

/-- Add an entry to a mapping: the datum of a key that is there already is replaced, and the key
stays. -/
def insertEntry (key : Scalar) (datum : Datum) : Entries → Entries
  | [] => [(key, datum)]
  | (k, d) :: rest =>
    if k.isSameKey key then (k, datum) :: rest else (k, d) :: insertEntry key datum rest

/-- The entries of a mapping that is written as a list of them; of one key the last datum counts. -/
def entriesOf (written : Entries) : Entries :=
  written.foldl (fun entries entry => insertEntry entry.1 entry.2 entries) []

mutual

/-- The datum of a value. -/
def ofValue : Value → Datum
  | .undefined | .null => .scalar .null
  | .bool b => .scalar (.bool b)
  | .number n => .scalar (.number n)
  | .str text => .scalar (.text text)
  | .array _ items => .sequence (ofItems items)
  | .object _ members => .mapping (ofMembers members)

/-- The data of items. -/
def ofItems : List Value → List Datum
  | [] => []
  | item :: items => ofValue item :: ofItems items

/-- The entries of members. -/
def ofMembers : List (Text × Value) → Entries
  | [] => []
  | (name, value) :: members => (.text name, ofValue value) :: ofMembers members

end

end Datum

end Criteria
