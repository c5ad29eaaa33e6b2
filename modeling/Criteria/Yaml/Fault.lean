/-!
# Faults of YAML text
-/

namespace Criteria.Yaml

/-- Why a text is not read as YAML. -/
inductive Fault
  /-- The text breaks a rule of the format. -/
  | malformed
  /-- The number of an escape needs more than 31 bits. -/
  | escapeTooLarge
  /-- A group of base sixty counts more than every double. -/
  | weightTooLarge
  deriving DecidableEq

/-- The words for a fault that is no breach of the format. -/
def Fault.message : Fault → String
  | .malformed => "malformed"
  | .escapeTooLarge => "Python int too large to convert to C int"
  | .weightTooLarge => "int too large to convert to float"

/-- What has been read, or the fault of a malformed text. -/
def wellFormed {α : Type} : Option α → Except Fault α
  | some result => .ok result
  | none => .error .malformed

end Criteria.Yaml
