import Criteria.Fault
import Criteria.Text.Quoted

/-!
# Limits

How long an expression may be, how many tokens it may have, and how many segments a path may have.

* `Limits.standard` holds where nothing else is said;
* `Limits.ofSettings` reads limits from named settings: a setting that is absent or blank leaves the
  standard limit, any other one has to be a positive integer.
-/

namespace Criteria

/-- The limits of an evaluation. -/
structure Limits where
  maxExpressionLength : Int
  maxTokens : Int
  maxPathDepth : Int
  deriving DecidableEq

namespace Limits

/-- The limits that hold where nothing else is said. -/
def standard : Limits := ⟨4096, 512, 16⟩

/-- Refuse an expression that is too long, by its number of characters. -/
def checkLength (limits : Limits) (expression : String) : Except Fault Unit :=
  if limits.maxExpressionLength < expression.length then
    .error (.limitExceeded .expressionLength limits.maxExpressionLength expression.length)
  else .ok ()

/-- Refuse too many tokens. -/
def checkTokens (limits : Limits) (count : Int) : Except Fault Unit :=
  if limits.maxTokens < count then .error (.limitExceeded .tokens limits.maxTokens count)
  else .ok ()

/-- The setting of the expression length. -/
def lengthSetting : String := "CONDEXPR_MAX_EXPRESSION_LENGTH"

/-- The setting of the number of tokens. -/
def tokensSetting : String := "CONDEXPR_MAX_TOKENS"

/-- The setting of the path depth. -/
def depthSetting : String := "CONDEXPR_MAX_PATH_DEPTH"

/-- What is wrong with a setting. -/
inductive SettingFault
  | notAnInteger (setting text : String)
  | notPositive (setting : String) (value : Int)
  deriving DecidableEq

/-- The words for a setting that cannot be used. -/
def SettingFault.message : SettingFault → String
  | .notAnInteger setting text =>
    s!"{setting} must be an integer, got " ++ Text.quoted (Text.ofString text)
  | .notPositive setting value => s!"{setting} must be positive, got {value}"

/-- The limit that a setting asks for, or the standard one. -/
def readSetting (settings : List (String × String)) (setting : String) (standard : Int) :
    Except SettingFault Int :=
  match settings.lookup setting with
  | none => .ok standard
  | some text =>
    if text.toList.all isBlank then .ok standard
    else
      match Numeral.readSetting? text.toList with
      | none => .error (.notAnInteger setting text)
      | some value => if value ≤ 0 then .error (.notPositive setting value) else .ok value

/-- The limits that settings ask for. -/
def ofSettings (settings : List (String × String)) : Except SettingFault Limits := do
  let length ← readSetting settings lengthSetting standard.maxExpressionLength
  let tokens ← readSetting settings tokensSetting standard.maxTokens
  let depth ← readSetting settings depthSetting standard.maxPathDepth
  return ⟨length, tokens, depth⟩

end Limits

end Criteria
