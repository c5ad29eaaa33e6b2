import Criteria.Evaluate
import Criteria.FieldName
import Criteria.Operator.Registry
import Criteria.Prepared.Load
import Criteria.Prepared.Standard
import Criteria.Prepared.Substitution
import Criteria.Stack
import Criteria.Proofs.Outcome
import Criteria.Proofs.Token
import Criteria.Proofs.Machine.Step
import Criteria.Proofs.Machine.Parentheses
import Criteria.Proofs.Expression.Basic
import Criteria.Proofs.Expression.Reading
import Criteria.Proofs.Expression.Evaluation
import Criteria.Proofs.Expression.Effect
import Criteria.Proofs.Expression.Negation
import Criteria.Proofs.Evaluate
import Criteria.Proofs.Machine.Frame
import Criteria.Proofs.Machine.Soundness
import Criteria.Proofs.Path
import Criteria.Proofs.Machine.Origin
import Criteria.Proofs.Machine.Balance
import Criteria.Proofs.Unbalanced
import Criteria.Proofs.Machine.Account
import Criteria.Proofs.Machine.Conservation
import Criteria.Proofs.Machine.Agreement
import Criteria.Proofs.Pieces
import Criteria.Proofs.Prepared.Substitution
import Criteria.Proofs.Prepared.Variable
import Criteria.Proofs.Machine.Arrangement
import Criteria.Proofs.Infix
import Criteria.Proofs.Machine.Correspondence
import Criteria.Proofs.Limits
import Criteria.Proofs.Spacing
import Criteria.Proofs.Prepared.Simultaneous
import Criteria.Proofs.Value.Equality
import Criteria.Proofs.Value.Match
import Criteria.Proofs.Number.Rounding
import Criteria.Proofs.Number.Division
import Criteria.Proofs.Number.Line
import Criteria.Proofs.Value.Equivalence
import Criteria.Proofs.Value.Alike
import Criteria.Proofs.FieldName
import Criteria.Proofs.Text.Utf8
import Criteria.Proofs.Prepared.Load
import Criteria.Proofs.Value.Order
import Criteria.Proofs.Json.Object
import Criteria.Proofs.Value.Contains
import Criteria.Proofs.Literal.Numeral
import Criteria.Proofs.Path.Composition
import Criteria.Proofs.Prepared.Chained
import Criteria.Proofs.Literal.Quoted
import Criteria.Proofs.Number.Overflow
import Criteria.Proofs.Machine.Failure
import Criteria.Proofs.FieldName.Chain
import Criteria.Proofs.Path.Length
import Criteria.Proofs.Number.Shortest
import Criteria.Proofs.Path.Writing
import Criteria.Proofs.Number.Text
import Criteria.Proofs.Assignment
import Criteria.Proofs.Json.Names
import Criteria.Proofs.Prepared.Keys
import Criteria.Proofs.Prepared.Standard
import Criteria.Proofs.Prepared.Kept
