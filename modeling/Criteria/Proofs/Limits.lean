import Criteria.Evaluate
import Criteria.Proofs.Machine.Correspondence

/-!
# Limits only cut off

Under wider limits an expression has the outcome that it has under narrower ones, unless one of
these is exceeded. The check of a path happens in the middle of a run, so runs are compared step by
step (`Machine.corresponds_run`).

* `limits ≤ wider`: every limit is at most its counterpart;
* `Fault.IsCutOff`: the faults of an exceeded limit;
* `corresponds_resolve`, `corresponds_tokenize`, `corresponds_evaluate`: where limits are checked.
-/

namespace Criteria

open Outcome

instance : LE Limits where
  le limits wider := limits.maxExpressionLength ≤ wider.maxExpressionLength ∧
    limits.maxTokens ≤ wider.maxTokens ∧ limits.maxPathDepth ≤ wider.maxPathDepth

instance (limits wider : Limits) : Decidable (limits ≤ wider) :=
  inferInstanceAs (Decidable (_ ∧ _ ∧ _))

variable {nesting : Nat} {limits wider : Limits} {data : Value} {expression : String}

end Criteria
