import ObjectPath.Number.Integer
import ObjectPath.Number.Decimal
import ObjectPath.Ty

/-!
# Refusals

Why a converter refuses a text or a value.
-/

namespace ObjectPath

/-- The reason of a converter for rejecting its input. -/
inductive Refusal
  | integer (fault : IntegerFault)
  | float (fault : FloatFault)
  | notTrueOrFalse
  | emptyChar
  | tooManyChars
  /-- The text, in lower case and without blanks around it, is none of the words for a Boolean. -/
  | notBoolean (text : String)
  /-- A value of one type was to be written and one of another was given. -/
  | wrongType (expected found : String)
  /-- A reason of a converter outside this library. -/
  | other (reason : String)
deriving DecidableEq, Repr

/-- The wording of a refusal. -/
def Refusal.message : Refusal → String
  | .integer f => f.message
  | .float f => f.message
  | .notTrueOrFalse => "provided string was not `true` or `false`"
  | .emptyChar => "cannot parse char from empty string"
  | .tooManyChars => "too many characters in string"
  | .notBoolean s => "`" ++ s ++ "` is not a boolean"
  | .wrongType expected found => "expected `" ++ expected ++ "`, found `" ++ found ++ "`"
  | .other reason => reason

end ObjectPath
