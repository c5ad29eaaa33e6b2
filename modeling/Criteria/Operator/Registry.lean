import Criteria.Operator.Basic

/-!
# Registries of operators

A registry is a list of registrations in which no symbol occurs twice and every arity is one or two.
-/

namespace Criteria

/-- What is registered of an operator. -/
structure Registration where
  symbol : String
  arity : Int
  precedence : Int
  deriving DecidableEq

/-- Why a registration is refused. -/
inductive RegistrationFault
  | registeredTwice (symbol : String)
  | unsupportedArity (symbol : String) (arity : Int)
  deriving DecidableEq

/-- The words for a registration that is refused. -/
def RegistrationFault.message : RegistrationFault → String
  | .registeredTwice symbol => s!"Operator registered twice: {symbol}"
  | .unsupportedArity symbol arity => s!"Unsupported arity {arity} for {symbol}"

/-- Add a registration at the end of a registry. -/
def register (registry : List Registration) (entry : Registration) :
    Except RegistrationFault (List Registration) :=
  if registry.any (·.symbol == entry.symbol) then .error (.registeredTwice entry.symbol)
  else if entry.arity ≠ 1 ∧ entry.arity ≠ 2 then
    .error (.unsupportedArity entry.symbol entry.arity)
  else .ok (registry ++ [entry])

/-- The registry of a list of registrations; the first one that is refused decides. -/
def registryOf (entries : List Registration) : Except RegistrationFault (List Registration) :=
  entries.foldlM register []

/-- The registration of an operator. -/
def Operator.registration (operator : Operator) : Registration :=
  ⟨operator.symbol, operator.arity, operator.precedence⟩

/-- The operators of the language form a registry. -/
theorem registryOf_all :
    registryOf (Operator.all.map Operator.registration) =
      .ok (Operator.all.map Operator.registration) := by
  rfl

end Criteria
