import ObjectPath.Expression.Scan
import ObjectPath.Convert.Refusal
import ObjectPath.Text.Quoted

/-!
# Faults

`Fault` is the cause of a failed evaluation, without the expression that was evaluated; an
`EvalError` adds the expression.  Walks fail with a fault, so that the same walk fails in the same
way under every spelling of the path.
-/

namespace ObjectPath

/-- Why the atoms of an expression do not fit the object graph. -/
inductive PathFault
  | nothingLeft
  | noIndex (member : String)
  | notAnIndex (atom : Atom)
  | wrongContainer (label : String)
  | indexTooLarge (index : Nat) (label : String)
  | outOfBounds (index : Nat) (label : String)
  | stillNull (label : String)
deriving DecidableEq, Repr

/-- The wording of a path fault. -/
def PathFault.message : PathFault → String
  | .nothingLeft => "nothing left to resolve"
  | .noIndex m => "indexed property `" ++ m ++ "` is not followed by an index"
  | .notAnIndex a => "`" ++ a.display ++ "` is not a sequence index"
  | .wrongContainer l => "`" ++ l ++ "` does not address a container of the expected kind"
  | .indexTooLarge i l => "index " ++ toString i ++ " of `" ++ l ++ "` is too large"
  | .outOfBounds i l => "index " ++ toString i ++ " is out of bounds for `" ++ l ++ "`"
  | .stillNull l => "`" ++ l ++ "` is still null after being created"

/-- Why a converter did not give a value of the wanted type. -/
inductive ConversionFault
  | refused (reason : Refusal)
  | produced (type : Ty)
deriving DecidableEq, Repr

/-- The wording of a conversion fault. -/
def ConversionFault.message : ConversionFault → String
  | .refused r => r.message
  | .produced t => "converter produced `" ++ t.path ++ "`"

/-- What was found where a value of some type was expected. -/
inductive Found
  | null
  | value (type : Ty)
deriving DecidableEq, Repr

/-- The text for what was found. -/
def Found.path : Found → String
  | .null => "null"
  | .value t => t.path

/-- Why an evaluation failed. -/
inductive Fault
  | badSyntax (error : SyntaxError)
  | malformedPath (fault : PathFault)
  | noSuchMember (member : String) (type : Ty)
  | unreadable (member : String)
  | unwritable (member : String)
  | arity (member : String) (count : Nat)
  | missingIndex (member : String)
  | noConverter (type : Ty)
  | conversion (type : Ty) (raw : String) (fault : ConversionFault)
  | typeMismatch (member : String) (expected : Ty) (found : Found)
  | instantiation (type : Ty)
deriving DecidableEq, Repr

/-- The name of the kind of a fault. -/
def Fault.kind : Fault → String
  | .badSyntax _ => "Syntax"
  | .malformedPath _ => "MalformedPath"
  | .noSuchMember _ _ => "NoSuchMember"
  | .unreadable _ => "Unreadable"
  | .unwritable _ => "Unwritable"
  | .arity _ _ => "Arity"
  | .missingIndex _ => "MissingIndex"
  | .noConverter _ => "NoConverterFound"
  | .conversion _ _ _ => "Conversion"
  | .typeMismatch _ _ _ => "TypeMismatch"
  | .instantiation _ => "Instantiation"

/-- A failed evaluation: the expression that was evaluated and the cause. -/
structure EvalError where
  expression : String
  fault : Fault
deriving DecidableEq, Repr

/-- The wording of a failed evaluation. -/
def EvalError.message (e : EvalError) : String :=
  let here := "`" ++ e.expression ++ "`: "
  match e.fault with
  | .badSyntax s =>
    "syntax error in `" ++ e.expression ++ "` at offset " ++ toString s.offset ++ ": " ++
      s.fault.message
  | .malformedPath f => "malformed path `" ++ e.expression ++ "`: " ++ f.message
  | .noSuchMember m t => here ++ "type `" ++ t.path ++ "` has no member named `" ++ m ++ "`"
  | .unreadable m => here ++ "member `" ++ m ++ "` is not readable"
  | .unwritable m => here ++ "member `" ++ m ++ "` is not writable"
  | .arity m n => here ++ "cannot assign " ++ toString n ++ " values to single-valued `" ++ m ++ "`"
  | .missingIndex m => here ++ "cannot create array for `" ++ m ++ "` without a numeric index"
  | .noConverter t => here ++ "no converter registered for `" ++ t.path ++ "`"
  | .conversion t raw f =>
    here ++ "cannot convert " ++ Text.quote raw ++ " to `" ++ t.path ++ "`: " ++ f.message
  | .typeMismatch m t f =>
    here ++ "`" ++ m ++ "` expects `" ++ t.path ++ "`, found `" ++ f.path ++ "`"
  | .instantiation t => here ++ "cannot instantiate `" ++ t.path ++ "`"

end ObjectPath
